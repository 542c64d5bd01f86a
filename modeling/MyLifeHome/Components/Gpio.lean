import MyLifeHome.Library.Checked
import MyLifeHome.Library.Dictionary
import MyLifeHome.Library.Runs

/-!
# The manager of the pins

`gpio_manager.c` opens pins with one of the three drivers, of which `gpio_io.c` also keeps a list of
the pins that it watches. The lists are sequences of nodes with what is stored in them.
-/
namespace MyLifeHome.Components.GpioManager

open Runs

/-- The address of a structure or of a function. -/
abbrev Pointer := Nat

/-- The `struct driver_type` of each driver. -/
inductive DriverType where
  | io
  | pwm
  | lock
  deriving DecidableEq

/-- `GPIO_TYPE_IO`, `GPIO_TYPE_PWM` and `GPIO_TYPE_LOCK` -/
def DriverType.type : DriverType → Int
  | io => 1
  | pwm => 2
  | lock => 3

inductive Direction where
  | in
  | out
  deriving DecidableEq

structure Io where
  direction : Direction
  change_callback : Option Pointer
  change_callback_ctx : Option Pointer
  value : Int
  monitor : Option Pointer

structure Pwm where
  period : Int
  pulse : Int
  pulses : Int

inductive TypeData where
  | io (io : Io)
  | pwm (pwm : Pwm)
  | lock

structure Gpio where
  pin : Int
  gpio : Int
  usage : String
  type : DriverType
  type_data : TypeData

structure MonitorData where
  gpio : Pointer
  pollfd : Int

/-- What is asked of the kernel; `sysfs_def` is the driver. -/
inductive Sysfs where
  | export (driver : DriverType) (gpio : Int)
  | unexport (driver : DriverType) (gpio : Int)
  | write (driver : DriverType) (gpio : Int) (attr value : String)
  | close (fd : Int)
  deriving DecidableEq

/-- What an operation gets from outside: new structures, the contents of files and a descriptor. A
new `struct io` has anything as its `monitor`. -/
structure World where
  gpio : Pointer
  monitor : Pointer
  indeterminate : Option Pointer
  direction : String
  value : String
  period : Int
  pulse : Int
  pulses : Int
  pollfd : Int

structure State where
  types : List DriverType
  refcount : DriverType → Nat
  gpios : Dictionary Pointer Gpio
  monitors : Dictionary Pointer MonitorData
  sysfs : List Sysfs

inductive Fault where
  | assertion
  | invalidPointer

namespace State

def log (s : State) (call : Sysfs) : State := { s with sysfs := s.sysfs ++ [call] }

end State

def pins : List Int := [3, 5, 7, 8, 10, 11, 12, 13, 15, 16, 18, 19, 21, 22, 23, 24, 26]

def gpio_from_pin : List Int :=
  [-1, -1, -1, 2, -1, 3, -1, 4, 14, -1, 15, 17, 18, 27, -1, 22, 23, -1, 24, 10, -1, 9, 25, 11, 8,
    -1, 7]

/-! ## The drivers -/

/-- The address of the new structure goes to `io->monitor`. -/
def monitor (w : World) (s : State) (handle : Pointer) (io : Io) : State × Io :=
  ({ s with monitors := s.monitors.set w.monitor ⟨handle, w.pollfd⟩ },
    { io with monitor := some w.monitor })

def unmonitor (s : State) (io : Io) : Except Fault (State × Io) :=
  match io.monitor with
  | none => .error .invalidPointer
  | some monitor =>
    match s.monitors.get monitor with
    | none => .error .invalidPointer
    | some data =>
      .ok ({ s with monitors := s.monitors.erase monitor }.log (.close data.pollfd),
        { io with monitor := none })

def io_open (w : World) (s : State) (handle : Pointer) (gpio : Gpio) : State × Gpio × Int :=
  let s := s.log (.export .io gpio.gpio)
  let io : Io :=
    { direction := if w.direction = "out" then .out else .in
      value := if w.value = "1" then 1 else 0
      change_callback := none
      change_callback_ctx := none
      monitor := w.indeterminate }
  let s := s.log (.write .io gpio.gpio "edge" "both")
  let (s, io) := if io.direction = .in then monitor w s handle io else (s, io)
  (s, { gpio with type_data := .io io }, 1)

def io_close (s : State) (gpio : Gpio) (io : Io) : Except Fault State := do
  let (s, _) ← if io.direction = .in then unmonitor s io else pure (s, io)
  pure ((s.log (.write .io gpio.gpio "direction" "in")).log (.unexport .io gpio.gpio))

def pwm_open (w : World) (s : State) (gpio : Gpio) : State × Gpio × Int :=
  (s.log (.export .pwm gpio.gpio), { gpio with type_data := .pwm ⟨w.period, w.pulse, w.pulses⟩ }, 1)

def pwm_close (s : State) (gpio : Gpio) : State :=
  (((s.log (.write .pwm gpio.gpio "period" "0")).log (.write .pwm gpio.gpio "pulse" "0")).log
    (.write .pwm gpio.gpio "pulses" "-1")).log (.unexport .pwm gpio.gpio)

def lock_open (s : State) (gpio : Gpio) : State × Gpio × Int := (s, gpio, 1)

/-- `type->open` -/
def DriverType.open (w : World) (s : State) (handle : Pointer) (gpio : Gpio) :
    DriverType → State × Gpio × Int
  | .io => io_open w s handle gpio
  | .pwm => pwm_open w s gpio
  | .lock => lock_open s gpio

/-- `type->close`; which driver it is shows in the data. -/
def Gpio.close (s : State) (gpio : Gpio) : Except Fault State :=
  match gpio.type_data with
  | .io io => io_close s gpio io
  | .pwm _ => pure (pwm_close s gpio)
  | .lock => pure s

/-- The controls with their arguments. -/
inductive Ctl where
  | getPinNumber
  | getGpioNumber
  | getType
  | getUsage
  | getValue
  | setValue (value : Int)
  | getDirection
  | setDirection (direction : Direction)
  | setChangeCallback (change_callback change_callback_ctx : Option Pointer)
  | getPeriod
  | setPeriod (period : Int)
  | getPulse
  | setPulse (pulse : Int)
  | getPulses
  | setPulses (pulses : Int)
  | other (ctl : Int)

/-- What a control writes to its argument. -/
inductive Answer where
  | int (value : Int)
  | usage (usage : String)
  | direction (direction : Direction)

def io_ctl (w : World) (s : State) (handle : Pointer) (gpio : Gpio) (io : Io) :
    Ctl → Except Fault (State × Io × Int × Option Answer)
  | .getValue => pure (s, io, 1, some (.int io.value))
  | .setValue value =>
    if io.direction = .out then
      pure (s.log (.write .io gpio.gpio "value" (if value ≠ 0 then "1" else "0")),
        { io with value }, 1, none)
    else pure (s, io, 0, none)
  | .getDirection => pure (s, io, 1, some (.direction io.direction))
  | .setDirection direction => do
    if io.direction ≠ direction then
      let (s, io) ← if io.direction = .in then unmonitor s io else pure (s, io)
      let io := { io with direction }
      let (s, io) := if io.direction = .in then monitor w s handle io else (s, io)
      let s := s.log (.write .io gpio.gpio "direction" (if direction = .in then "in" else "out"))
      let s := if io.direction = .in then s.log (.write .io gpio.gpio "edge" "both") else s
      pure (s, io, 1, none)
    else pure (s, io, 1, none)
  | .setChangeCallback change_callback change_callback_ctx =>
    pure (s, { io with change_callback, change_callback_ctx }, 1, none)
  | _ => pure (s, io, 0, none)

def pwm_ctl (s : State) (gpio : Gpio) (pwm : Pwm) : Ctl → State × Pwm × Int × Option Answer
  | .getPeriod => (s, pwm, 1, some (.int pwm.period))
  | .setPeriod period =>
    (s.log (.write .pwm gpio.gpio "period" (toString period)), { pwm with period }, 1, none)
  | .getPulse => (s, pwm, 1, some (.int pwm.pulse))
  | .setPulse pulse =>
    (s.log (.write .pwm gpio.gpio "pulse" (toString pulse)), { pwm with pulse }, 1, none)
  | .getPulses => (s, pwm, 1, some (.int pwm.pulses))
  | .setPulses pulses =>
    (s.log (.write .pwm gpio.gpio "pulses" (toString pulses)), { pwm with pulses }, 1, none)
  | _ => (s, pwm, 0, none)

/-- `type->ctl` -/
def Gpio.ctl (w : World) (s : State) (handle : Pointer) (gpio : Gpio) (ctl : Ctl) :
    Except Fault (State × TypeData × Int × Option Answer) :=
  match gpio.type_data with
  | .io io => do
    let (s, io, ret, answer) ← io_ctl w s handle gpio io ctl
    pure (s, .io io, ret, answer)
  | .pwm pwm =>
    let (s, pwm, ret, answer) := pwm_ctl s gpio pwm ctl
    pure (s, .pwm pwm, ret, answer)
  | .lock => pure (s, .lock, 0, none)

/-! ## The manager -/

def register_type (s : State) (type : DriverType) : State :=
  { s with types := s.types ++ [type], refcount := fun t => if t = type then 0 else s.refcount t }

def unregister_type (s : State) (type : DriverType) : Except Fault State :=
  if s.refcount type = 0 then .ok { s with types := s.types.erase type } else .error .assertion

def gpio_init : State :=
  register_type (register_type (register_type ⟨[], fun _ => 0, .empty, .empty, []⟩ .io) .pwm) .lock

def io_terminate (s : State) : Except Fault State :=
  if s.monitors.entries = [] then unregister_type s .io else .error .assertion

def gpio_terminate (s : State) : Except Fault State := do
  let s ← io_terminate s
  let s ← unregister_type s .pwm
  let s ← unregister_type s .lock
  if s.gpios.entries ≠ [] then throw .assertion
  if s.types ≠ [] then throw .assertion
  pure s

/-- Without a usage, with a pin that is not there or in use, or of no type, nothing is opened. -/
def gpio_open (w : World) (s : State) (pin : Int) (usage : Option String) (type : Int) :
    State × Option Pointer :=
  match usage with
  | none => (s, none)
  | some usage =>
    if pin ∉ pins then (s, none)
    else if (s.gpios.values.find? fun gpio => gpio.pin = pin).isSome then (s, none)
    else
      match s.types.find? fun t => t.type = type with
      | none => (s, none)
      | some type =>
        let gpio : Gpio := ⟨pin, gpio_from_pin.getD pin.toNat (-1), usage, type, .lock⟩
        let (s, gpio, ret) := type.open w s w.gpio gpio
        if ret = 0 then (s, none)
        else
          ({ s with
            gpios := s.gpios.set w.gpio gpio
            refcount := fun t => if t = type then s.refcount t + 1 else s.refcount t },
            some w.gpio)

def gpio_close (s : State) (handle : Pointer) : Except Fault State :=
  match s.gpios.get handle with
  | none => .error .invalidPointer
  | some gpio => do
    let s ← gpio.close s
    pure { s with
      refcount := fun t => if t = gpio.type then s.refcount t - 1 else s.refcount t
      gpios := s.gpios.erase handle }

def gpio_ctl (w : World) (s : State) (handle : Pointer) (ctl : Ctl) :
    Except Fault (State × Int × Option Answer) :=
  match s.gpios.get handle with
  | none => .error .invalidPointer
  | some gpio =>
    match ctl with
    | .getPinNumber => pure (s, 1, some (.int gpio.pin))
    | .getGpioNumber => pure (s, 1, some (.int gpio.gpio))
    | .getType => pure (s, 1, some (.int gpio.type.type))
    | .getUsage => pure (s, 1, some (.usage gpio.usage))
    | ctl => do
      let (s, type_data, ret, answer) ← gpio.ctl w s handle ctl
      pure ({ s with gpios := s.gpios.set handle { gpio with type_data } }, ret, answer)

inductive Op where
  | gpio_open (pin : Int) (usage : Option String) (type : Int)
  | gpio_close (handle : Pointer)
  | gpio_ctl (handle : Pointer) (ctl : Ctl)

/-- An operation with what it gets from outside. -/
def Op.perform (s : State) (w : World) : Op → Except Fault State
  | .gpio_open pin usage type => pure (GpioManager.gpio_open w s pin usage type).1
  | .gpio_close handle => GpioManager.gpio_close s handle
  | .gpio_ctl handle ctl => do
    let (s, _, _) ← GpioManager.gpio_ctl w s handle ctl
    pure s

/-- An open handle as its owner knows it: the pin and the type it was opened with, and the direction
of an IO. -/
structure Handle where
  handle : Pointer
  pin : Int
  type : Int
  direction : Option Direction

/-- What `gpio_open` returns. -/
def Op.answer (s : State) (w : World) : Op → Option Pointer
  | .gpio_open pin usage type => (GpioManager.gpio_open w s pin usage type).2
  | .gpio_close _ | .gpio_ctl _ _ => none

def Ctl.turn (direction : Option Direction) : Ctl → Option Direction
  | .setDirection new => direction.map fun _ => new
  | _ => direction

/-- The handles that are open after an operation, from those before and from what it has returned.
A new IO has the direction that the kernel tells. -/
def Op.handles (w : World) (answer : Option Pointer) (handles : List Handle) : Op → List Handle
  | .gpio_open pin _ type =>
    match answer with
    | none => handles
    | some handle =>
      let direction := if w.direction = "out" then Direction.out else .in
      handles ++ [⟨handle, pin, type, if type = DriverType.io.type then some direction else none⟩]
  | .gpio_close handle => handles.filter fun x => x.handle ≠ handle
  | .gpio_ctl handle ctl => handles.map fun x =>
      if x.handle = handle then { x with direction := ctl.turn x.direction } else x

/-- Only handles that are open are used, and new structures are not in use. -/
structure Op.Legal (s : State) (handles : List Handle) (w : World) (op : Op) : Prop where
  gpio : w.gpio ∉ handles.map Handle.handle
  monitor : w.monitor ∉ s.monitors.keys
  handle : match op with
    | .gpio_open _ _ _ => True
    | .gpio_close handle | .gpio_ctl handle _ => handle ∈ handles.map Handle.handle

/-- One operation, with the handles that are open. -/
structure Step (x : State × List Handle) (a : World × Op) (y : State × List Handle) : Prop where
  legal : a.2.Legal x.1 x.2 a.1
  performed : a.2.perform x.1 a.1 = .ok y.1
  handles : y.2 = a.2.handles a.1 (a.2.answer x.1 a.1) x.2

/-! ## Who is watched -/

variable {w : World} {s s' : State} {handle h h' m : Pointer} {gpio g : Gpio} {io io' : Io}
  {gpios gpios' : Dictionary Pointer Gpio} {monitors : Dictionary Pointer MonitorData}
  {x : Option Gpio} {data : MonitorData} {type : DriverType} {ctl : Ctl} {op : Op} {fd : Int}

/-- The monitor of a handle that is an input. -/
def Gpio.watched (gpio : Gpio) : Option Pointer :=
  match gpio.type_data with
  | .io io => if io.direction = .in then io.monitor else none
  | .pwm _ | .lock => none

def TypeData.direction : TypeData → Option Direction
  | .io io => some io.direction
  | .pwm _ | .lock => none

def Gpio.direction (gpio : Gpio) : Option Direction := gpio.type_data.direction

/-- An input has a monitor, and the data are those of the driver. -/
def Gpio.Sound (gpio : Gpio) : Prop :=
  match gpio.type_data with
  | .io io => gpio.type = .io ∧ (io.direction = .in → io.monitor ≠ none)
  | .pwm _ => gpio.type = .pwm
  | .lock => gpio.type = .lock

/-- The monitors are those of the handles, each pointing to its handle. -/
def Tracks (gpios : Dictionary Pointer Gpio) (monitors : Dictionary Pointer MonitorData) : Prop :=
  ∀ m h, (monitors.get m).map MonitorData.gpio = some h ↔ (gpios.get h).bind Gpio.watched = some m

/-- One handle is now `x`. -/
def Updates (gpios : Dictionary Pointer Gpio) (handle : Pointer) (x : Option Gpio)
    (gpios' : Dictionary Pointer Gpio) : Prop :=
  ∀ h, gpios'.get h = if h = handle then x else gpios.get h

theorem updates_set : Updates gpios handle (some gpio) (gpios.set handle gpio) :=
  fun _ => Dictionary.get_set

theorem updates_erase : Updates gpios handle none (gpios.erase handle) :=
  fun _ => Dictionary.get_erase

theorem Tracks.same (ht : Tracks gpios monitors) (hu : Updates gpios handle x gpios')
    (hx : x.bind Gpio.watched = (gpios.get handle).bind Gpio.watched) : Tracks gpios' monitors := by
  intro m h
  rw [ht, hu]
  split_ifs with heq
  · rw [heq, hx]
  · rfl

theorem Tracks.unwatch (ht : Tracks gpios monitors) (hu : Updates gpios handle x gpios')
    (hold : (gpios.get handle).bind Gpio.watched = some m) (hx : x.bind Gpio.watched = none) :
    Tracks gpios' (monitors.erase m) := by
  have hm := (ht m handle).mpr hold
  intro m' h
  have hold' := ht m' h
  rw [Dictionary.get_erase, hu]
  split_ifs with hm' hh hh
  · simp [hx]
  · subst hm'
    rw [hm] at hold'
    simpa [Ne.symm hh] using hold'
  · subst hh
    rw [hold] at hold'
    simpa [hx, Ne.symm hm'] using hold'
  · exact hold'

theorem Tracks.watch (ht : Tracks gpios monitors) (hu : Updates gpios handle x gpios')
    (hold : (gpios.get handle).bind Gpio.watched = none) (hm : m ∉ monitors.keys)
    (hx : x.bind Gpio.watched = some m) : Tracks gpios' (monitors.set m ⟨handle, fd⟩) := by
  have hnone := Dictionary.get_eq_none_iff.mpr hm
  intro m' h
  have hold' := ht m' h
  rw [Dictionary.get_set, hu]
  split_ifs with hm' hh hh
  · simp [hx, hm', hh]
  · subst hm'
    rw [hnone] at hold'
    simpa [Ne.symm hh] using hold'
  · subst hh
    rw [hold] at hold'
    simpa [hx, Ne.symm hm'] using hold'
  · exact hold'

/-! ## What the drivers do -/

/-- A driver changes the monitors only, so that they fit when the handle is `x`. -/
structure Drives (s : State) (handle : Pointer) (x : Option Gpio) (s' : State) : Prop where
  types : s'.types = s.types
  refcount : s'.refcount = s.refcount
  gpios : s'.gpios = s.gpios
  tracks : ∀ {gpios'}, Updates s.gpios handle x gpios' → Tracks gpios' s'.monitors

theorem drives_of_same (ht : Tracks s.gpios s.monitors) (htypes : s'.types = s.types)
    (hrefcount : s'.refcount = s.refcount) (hgpios : s'.gpios = s.gpios)
    (hmonitors : s'.monitors = s.monitors)
    (hx : x.bind Gpio.watched = (s.gpios.get handle).bind Gpio.watched) :
    Drives s handle x s' :=
  ⟨htypes, hrefcount, hgpios, fun hu => hmonitors ▸ ht.same hu hx⟩

theorem unmonitor_eq_ok (ht : Tracks s.gpios s.monitors) (hget : s.gpios.get handle = some gpio)
    (hw : gpio.watched = some m) (hio : io.monitor = some m) : ∃ fd, unmonitor s io =
      .ok ({ s with monitors := s.monitors.erase m }.log (.close fd), { io with monitor := none }) := by
  have hm := (ht m handle).mpr (by rw [hget]; exact hw)
  obtain ⟨data, hdata, _⟩ := Option.map_eq_some_iff.mp hm
  exact ⟨data.pollfd, by simp [unmonitor, hio, hdata]⟩

theorem io_open_of_out (s : State) (handle : Pointer) (gpio : Gpio) (hout : w.direction = "out") :
    ∃ s' io,
    io_open w s handle gpio = (s', { gpio with type_data := .io io }, 1) ∧ io.direction = .out ∧
      s'.types = s.types ∧ s'.refcount = s.refcount ∧ s'.gpios = s.gpios ∧
      s'.monitors = s.monitors := by
  simp only [io_open, hout, if_true, reduceCtorEq, if_false]
  exact ⟨_, _, rfl, rfl, rfl, rfl, rfl, rfl⟩

theorem io_open_of_in (s : State) (handle : Pointer) (gpio : Gpio) (hin : w.direction ≠ "out") :
    ∃ s' io,
    io_open w s handle gpio = (s', { gpio with type_data := .io io }, 1) ∧ io.direction = .in ∧
      io.monitor = some w.monitor ∧ s'.types = s.types ∧ s'.refcount = s.refcount ∧
      s'.gpios = s.gpios ∧ s'.monitors = s.monitors.set w.monitor ⟨handle, w.pollfd⟩ := by
  simp only [io_open, hin, if_true, if_false]
  exact ⟨_, _, rfl, rfl, rfl, rfl, rfl, rfl, rfl⟩

/-- A driver opens what it is given. -/
theorem open_drives (gpio : Gpio) (ht : Tracks s.gpios s.monitors) (hget : s.gpios.get handle = none)
    (hmonitor : w.monitor ∉ s.monitors.keys) (htype : gpio.type = type)
    (hdata : gpio.type_data = .lock) :
    ∃ s' g, type.open w s handle gpio = (s', g, 1) ∧ Drives s handle (some g) s' ∧ g.Sound ∧
      g.pin = gpio.pin ∧ g.gpio = gpio.gpio ∧ g.type = type ∧ g.direction =
        if type = .io then some (if w.direction = "out" then .out else .in) else none := by
  have hold : (s.gpios.get handle).bind Gpio.watched = none := by simp [hget]
  cases type with
  | io =>
    by_cases hout : w.direction = "out"
    · obtain ⟨s', io, hopen, hdir, htypes, hrefcount, hgpios, hmonitors⟩ :=
        io_open_of_out s handle gpio hout
      refine ⟨s', _, hopen, ?_, ?_, rfl, rfl, htype, ?_⟩
      · exact drives_of_same ht htypes hrefcount hgpios hmonitors
          (by simp [hold, Gpio.watched, hdir])
      · simp [Gpio.Sound, htype, hdir]
      · simp [Gpio.direction, TypeData.direction, hdir, hout]
    · obtain ⟨s', io, hopen, hdir, hm, htypes, hrefcount, hgpios, hmonitors⟩ :=
        io_open_of_in s handle gpio hout
      refine ⟨s', _, hopen, ⟨htypes, hrefcount, hgpios, fun hu => ?_⟩, ?_, rfl, rfl, htype, ?_⟩
      · rw [hmonitors]
        exact ht.watch hu hold hmonitor (by simp [Gpio.watched, hdir, hm])
      · simp [Gpio.Sound, htype, hm]
      · simp [Gpio.direction, TypeData.direction, hdir, hout]
  | pwm =>
    refine ⟨_, _, rfl, ?_, htype, rfl, rfl, htype, rfl⟩
    exact drives_of_same ht rfl rfl rfl rfl (by simp [hold, Gpio.watched])
  | lock =>
    refine ⟨_, _, rfl, ?_, ?_, rfl, rfl, htype, by simp [Gpio.direction, TypeData.direction, hdata]⟩
    · exact drives_of_same ht rfl rfl rfl rfl (by simp [hold, Gpio.watched, hdata])
    · simpa [Gpio.Sound, hdata] using htype

theorem close_drives (ht : Tracks s.gpios s.monitors) (hget : s.gpios.get handle = some gpio)
    (hsound : gpio.Sound) : ∃ s', gpio.close s = .ok s' ∧ Drives s handle none s' := by
  have hwatched : (s.gpios.get handle).bind Gpio.watched = gpio.watched := by simp [hget]
  cases hdata : gpio.type_data with
  | io io =>
    simp only [Gpio.Sound, hdata] at hsound
    by_cases hin : io.direction = .in
    · obtain ⟨m, hm⟩ := Option.ne_none_iff_exists'.mp (hsound.2 hin)
      have hw : gpio.watched = some m := by simp [Gpio.watched, hdata, hin, hm]
      obtain ⟨fd, hunmonitor⟩ := unmonitor_eq_ok ht hget hw hm
      refine ⟨_, by simp [Gpio.close, hdata, io_close, hin, hunmonitor, bind, Except.bind]; rfl, ?_⟩
      exact ⟨rfl, rfl, rfl, fun hu => ht.unwatch hu (hwatched.trans hw) rfl⟩
    · refine ⟨_, by simp [Gpio.close, hdata, io_close, hin, bind, Except.bind]; rfl, ?_⟩
      exact drives_of_same ht rfl rfl rfl rfl (by rw [hwatched]; simp [Gpio.watched, hdata, hin])
  | pwm pwm =>
    refine ⟨_, by rw [Gpio.close, hdata]; rfl, ?_⟩
    exact drives_of_same ht rfl rfl rfl rfl (by rw [hwatched]; simp [Gpio.watched, hdata])
  | lock =>
    refine ⟨s, by rw [Gpio.close, hdata]; rfl, ?_⟩
    exact drives_of_same ht rfl rfl rfl rfl (by rw [hwatched]; simp [Gpio.watched, hdata])

/-- What the `ctl` of a driver does to a handle. -/
def Controls (s : State) (handle : Pointer) (gpio : Gpio) (s' : State) (data : TypeData) : Prop :=
  Drives s handle (some { gpio with type_data := data }) s' ∧
    Gpio.Sound { gpio with type_data := data }

/-- A control that keeps direction and monitor keeps the monitors. -/
theorem controls_of_same (ht : Tracks s.gpios s.monitors) (hget : s.gpios.get handle = some gpio)
    (hsound : gpio.Sound) (hdata : gpio.type_data = .io io) (htypes : s'.types = s.types)
    (hrefcount : s'.refcount = s.refcount) (hgpios : s'.gpios = s.gpios)
    (hmonitors : s'.monitors = s.monitors) (hdir : io'.direction = io.direction)
    (hm : io'.monitor = io.monitor) : Controls s handle gpio s' (.io io') := by
  simp only [Gpio.Sound, hdata] at hsound
  constructor
  · apply drives_of_same ht htypes hrefcount hgpios hmonitors
    simp [hget, Gpio.watched, hdata, hdir, hm]
  · simpa [Gpio.Sound, hdir, hm] using hsound

theorem setDirection_out (ht : Tracks s.gpios s.monitors) (hget : s.gpios.get handle = some gpio)
    (hsound : gpio.Sound) (hdata : gpio.type_data = .io io) (hin : io.direction = .in) :
    ∃ s' io' ret answer, io_ctl w s handle gpio io (.setDirection .out) =
      .ok (s', io', ret, answer) ∧ Controls s handle gpio s' (.io io') ∧ io'.direction = .out := by
  simp only [Gpio.Sound, hdata] at hsound
  obtain ⟨m, hm⟩ := Option.ne_none_iff_exists'.mp (hsound.2 hin)
  have hw : gpio.watched = some m := by simp [Gpio.watched, hdata, hin, hm]
  obtain ⟨fd, hunmonitor⟩ := unmonitor_eq_ok ht hget hw hm
  simp only [io_ctl, hin, hunmonitor, bind, Except.bind, reduceCtorEq, ne_eq, not_false_iff, if_true,
    if_false]
  refine ⟨_, _, _, _, rfl, ⟨⟨rfl, rfl, rfl, fun hu => ?_⟩, ?_⟩, rfl⟩
  · exact ht.unwatch hu (by simpa [hget] using hw) (by simp [Gpio.watched])
  · simpa [Gpio.Sound] using hsound.1

theorem setDirection_in (ht : Tracks s.gpios s.monitors) (hget : s.gpios.get handle = some gpio)
    (hmonitor : w.monitor ∉ s.monitors.keys) (hsound : gpio.Sound)
    (hdata : gpio.type_data = .io io) (hout : io.direction = .out) :
    ∃ s' io' ret answer, io_ctl w s handle gpio io (.setDirection .in) =
      .ok (s', io', ret, answer) ∧ Controls s handle gpio s' (.io io') ∧ io'.direction = .in := by
  simp only [Gpio.Sound, hdata] at hsound
  have hw : gpio.watched = none := by simp [Gpio.watched, hdata, hout]
  simp only [io_ctl, hout, monitor, bind, Except.bind, pure, Except.pure, reduceCtorEq, ne_eq,
    not_false_iff, if_true, if_false]
  refine ⟨_, _, _, _, rfl, ⟨⟨rfl, rfl, rfl, fun hu => ?_⟩, ?_⟩, rfl⟩
  · exact ht.watch hu (by simpa [hget] using hw) hmonitor (by simp [Gpio.watched])
  · simpa [Gpio.Sound] using hsound.1

theorem io_ctl_controls (ht : Tracks s.gpios s.monitors) (hget : s.gpios.get handle = some gpio)
    (hmonitor : w.monitor ∉ s.monitors.keys) (hsound : gpio.Sound)
    (hdata : gpio.type_data = .io io) (ctl : Ctl) : ∃ s' io' ret answer,
    io_ctl w s handle gpio io ctl = .ok (s', io', ret, answer) ∧
      Controls s handle gpio s' (.io io') ∧ ctl.turn (some io.direction) = some io'.direction := by
  cases ctl with
  | setValue value =>
    by_cases hout : io.direction = .out
    · refine ⟨_, _, _, _, by simp only [io_ctl, hout, if_true]; rfl, ?_, by rw [hout]; rfl⟩
      exact controls_of_same ht hget hsound hdata rfl rfl rfl rfl hout.symm rfl
    · refine ⟨s, io, 0, none, by simp only [io_ctl, hout, if_false]; rfl, ?_, rfl⟩
      exact controls_of_same ht hget hsound hdata rfl rfl rfl rfl rfl rfl
  | setChangeCallback change_callback change_callback_ctx =>
    refine ⟨_, _, _, _, rfl, ?_, rfl⟩
    exact controls_of_same ht hget hsound hdata rfl rfl rfl rfl rfl rfl
  | setDirection direction =>
    by_cases hsame : io.direction = direction
    · refine ⟨s, io, 1, none, by simp [io_ctl, hsame, pure, Except.pure], ?_, by rw [hsame]; rfl⟩
      exact controls_of_same ht hget hsound hdata rfl rfl rfl rfl rfl rfl
    · cases direction with
      | out =>
        obtain ⟨s', io', ret, answer, hctl, hcontrols, hdir⟩ :=
          setDirection_out (w := w) ht hget hsound hdata (by cases h : io.direction <;> simp_all)
        exact ⟨s', io', ret, answer, hctl, hcontrols, by rw [hdir]; rfl⟩
      | «in» =>
        obtain ⟨s', io', ret, answer, hctl, hcontrols, hdir⟩ :=
          setDirection_in ht hget hmonitor hsound hdata (by cases h : io.direction <;> simp_all)
        exact ⟨s', io', ret, answer, hctl, hcontrols, by rw [hdir]; rfl⟩
  | getValue | getDirection | getPinNumber | getGpioNumber | getType | getUsage | getPeriod
    | setPeriod | getPulse | setPulse | getPulses | setPulses | other =>
    refine ⟨_, _, _, _, rfl, ?_, rfl⟩
    exact controls_of_same ht hget hsound hdata rfl rfl rfl rfl rfl rfl

/-- A driver carries out every control. -/
theorem ctl_controls (ht : Tracks s.gpios s.monitors) (hget : s.gpios.get handle = some gpio)
    (hmonitor : w.monitor ∉ s.monitors.keys) (hsound : gpio.Sound) (ctl : Ctl) :
    ∃ s' data ret answer, gpio.ctl w s handle ctl = .ok (s', data, ret, answer) ∧
      Controls s handle gpio s' data ∧ data.direction = ctl.turn gpio.direction := by
  cases hdata : gpio.type_data with
  | io io =>
    obtain ⟨s', io', ret, answer, hctl, hcontrols, hturn⟩ :=
      io_ctl_controls ht hget hmonitor hsound hdata ctl
    refine ⟨s', .io io', ret, answer, by simp only [Gpio.ctl, hdata, hctl]; rfl, hcontrols, ?_⟩
    rw [Gpio.direction, hdata]
    exact hturn.symm
  | pwm pwm =>
    have hw : gpio.watched = none := by simp [Gpio.watched, hdata]
    simp only [Gpio.Sound, hdata] at hsound
    refine ⟨_, _, _, _, by rw [Gpio.ctl, hdata]; rfl, ⟨?_, by exact hsound⟩, ?_⟩
    · cases ctl <;> exact drives_of_same ht rfl rfl rfl rfl (by simp [hget, hw]; rfl)
    · rw [Gpio.direction, hdata]
      cases ctl <;> rfl
  | lock =>
    have hw : gpio.watched = none := by simp [Gpio.watched, hdata]
    simp only [Gpio.Sound, hdata] at hsound
    refine ⟨_, _, _, _, by rw [Gpio.ctl, hdata]; rfl, ⟨?_, by exact hsound⟩, ?_⟩
    · exact drives_of_same ht rfl rfl rfl rfl (by simp [hget, hw]; rfl)
    · rw [Gpio.direction, hdata]
      cases ctl <;> rfl

/-! ## Over a run -/

/-- The handles are on pins of their own, on the numbers of these. -/
structure Placed (gpios : Dictionary Pointer Gpio) : Prop where
  pins : ∀ {h h' g g'}, gpios.get h = some g → gpios.get h' = some g' → g.pin = g'.pin → h = h'
  mapped : ∀ {h g}, gpios.get h = some g →
    g.pin ∈ GpioManager.pins ∧ g.gpio = gpio_from_pin.getD g.pin.toNat (-1)
  sound : ∀ {h g}, gpios.get h = some g → g.Sound

theorem Placed.update (hp : Placed gpios) (hu : Updates gpios handle x gpios')
    (hpins : ∀ {g h' g'}, x = some g → gpios.get h' = some g' → g'.pin = g.pin → h' = handle)
    (hmapped : ∀ {g}, x = some g →
      g.pin ∈ GpioManager.pins ∧ g.gpio = gpio_from_pin.getD g.pin.toNat (-1))
    (hsound : ∀ {g}, x = some g → g.Sound) : Placed gpios' := by
  have hget : ∀ {h g}, gpios'.get h = some g →
      h = handle ∧ x = some g ∨ h ≠ handle ∧ gpios.get h = some g := by
    intro h g hg
    rw [hu] at hg
    split_ifs at hg with hh
    · exact .inl ⟨hh, hg⟩
    · exact .inr ⟨hh, hg⟩
  constructor
  · intro h h' g g' hg hg' heq
    obtain ⟨rfl, hx⟩ | ⟨hne, hg⟩ := hget hg <;> obtain ⟨rfl, hx'⟩ | ⟨hne', hg'⟩ := hget hg'
    · rfl
    · exact (hpins hx hg' heq.symm).symm
    · exact hpins hx' hg heq
    · exact hp.pins hg hg' heq
  · intro h g hg
    obtain ⟨_, hx⟩ | ⟨_, hg⟩ := hget hg
    · exact hmapped hx
    · exact hp.mapped hg
  · intro h g hg
    obtain ⟨_, hx⟩ | ⟨_, hg⟩ := hget hg
    · exact hsound hx
    · exact hp.sound hg

/-- How many handles are of a type. -/
def open_count (gpios : Dictionary Pointer Gpio) (t : DriverType) : Nat :=
  gpios.values.countP fun g => g.type = t

theorem open_count_set : open_count (gpios.set handle gpio) type =
    open_count (gpios.erase handle) type + if gpio.type = type then 1 else 0 := by
  simp [open_count, Dictionary.countP_values_set]

theorem open_count_of_get (hget : gpios.get handle = some gpio) : open_count gpios type =
    open_count (gpios.erase handle) type + if gpio.type = type then 1 else 0 := by
  simp [open_count, Dictionary.countP_values_of_get _ hget]

structure Inv (s : State) : Prop where
  types : s.types = [.io, .pwm, .lock]
  placed : Placed s.gpios
  refcount : ∀ t, s.refcount t = open_count s.gpios t
  tracks : Tracks s.gpios s.monitors

theorem Inv.init : Inv gpio_init where
  types := rfl
  placed := ⟨fun h => (nomatch h), fun h => (nomatch h), fun h => (nomatch h)⟩
  refcount t := by cases t <;> rfl
  tracks m h := by simp [gpio_init, register_type]

/-! ## The handles of the callers -/

/-- What the owner of a handle knows about it. -/
def Gpio.known (handle : Pointer) (gpio : Gpio) : Handle :=
  ⟨handle, gpio.pin, gpio.type.type, gpio.direction⟩

/-- The handles that the manager lists. -/
def known (gpios : Dictionary Pointer Gpio) : List Handle := gpios.entries.map fun e => e.2.known e.1

@[simp] theorem map_handle_known : (known gpios).map Handle.handle = gpios.keys := by
  simp [known, Dictionary.keys, Function.comp_def, Gpio.known]

theorem mem_known {x : Handle} :
    x ∈ known gpios ↔ ∃ g, gpios.get x.handle = some g ∧ g.known x.handle = x := by
  simp only [known, List.mem_map, Prod.exists]
  constructor
  · rintro ⟨h, g, hmem, rfl⟩
    exact ⟨g, Dictionary.get_eq_some_iff.mpr hmem, rfl⟩
  · rintro ⟨g, hget, hx⟩
    exact ⟨x.handle, g, Dictionary.get_eq_some_iff.mp hget, hx⟩

theorem known_set_of_notMem (h : handle ∉ gpios.keys) :
    known (gpios.set handle gpio) = known gpios ++ [gpio.known handle] := by
  simp [known, Dictionary.set, h]

theorem known_set_of_get (hget : gpios.get handle = some g) :
    known (gpios.set handle gpio) =
      (known gpios).map fun x => if x.handle = handle then gpio.known handle else x := by
  have hmem : handle ∈ gpios.keys := Dictionary.get_isSome_iff.mp (by rw [hget]; rfl)
  simp only [known, Dictionary.set, hmem, dif_pos, List.map_map]
  refine List.map_congr_left fun e _ => ?_
  by_cases he : e.1 = handle <;> simp [he, Gpio.known]

theorem known_erase :
    known (gpios.erase handle) = (known gpios).filter fun x => x.handle ≠ handle := by
  simp [known, Dictionary.erase, List.filter_map, Function.comp_def, Gpio.known]

/-- A control changes what is known as its owner expects. -/
theorem known_ctl {data : TypeData} (hget : s.gpios.get handle = some g)
    (hdata : data.direction = ctl.turn g.direction) :
    known (s.gpios.set handle { g with type_data := data }) =
      (Op.gpio_ctl handle ctl).handles w none (known s.gpios) := by
  rw [known_set_of_get hget]
  refine List.map_congr_left fun x hx => ?_
  split_ifs with hh
  · obtain ⟨g', hget', hknown⟩ := mem_known.mp hx
    rw [hh, hget] at hget'
    obtain rfl := Option.some.inj hget'
    rw [← hknown, hh]
    simp [Gpio.known, Gpio.direction, hdata]
  · rfl

/-- With a usage, on a mapped pin that no open handle has, with one of the drivers. -/
def Opens (handles : List Handle) (pin : Int) (usage : Option String) (type : Int) : Prop :=
  usage ≠ none ∧ pin ∈ pins ∧ (∀ x ∈ handles, x.pin ≠ pin) ∧ ∃ t : DriverType, t.type = type

theorem forall_mem_known_pin {pin : Int} :
    (∀ x ∈ known gpios, x.pin ≠ pin) ↔ ∀ g ∈ gpios.values, g.pin ≠ pin := by
  simp only [known, Dictionary.values, List.forall_mem_map]
  rfl

/-- Nothing is opened, or a pin that is free with one of the drivers. -/
theorem gpio_open_cases (w : World) (s : State) (pin : Int) (usage : Option String) (type : Int)
    (htypes : s.types = [.io, .pwm, .lock]) :
    gpio_open w s pin usage type = (s, none) ∧ ¬Opens (known s.gpios) pin usage type ∨
      ∃ name t, Opens (known s.gpios) pin usage type ∧ t.type = type ∧
        ∀ s' gpio, DriverType.open w s w.gpio
            ⟨pin, gpio_from_pin.getD pin.toNat (-1), name, t, .lock⟩ t = (s', gpio, 1) →
          gpio_open w s pin usage type =
            ({ s' with
              gpios := s'.gpios.set w.gpio gpio
              refcount := fun t' => if t' = t then s'.refcount t' + 1 else s'.refcount t' },
              some w.gpio) := by
  cases usage with
  | none => exact .inl ⟨rfl, fun h => h.1 rfl⟩
  | some usage =>
    simp only [gpio_open]
    by_cases hpin : pin ∈ pins
    · by_cases hused : (s.gpios.values.find? fun gpio => gpio.pin = pin).isSome
      · refine .inl ⟨by simp only [hpin, hused, not_true, if_true, if_false], fun h => ?_⟩
        have hfree := forall_mem_known_pin.mp h.2.2.1
        obtain ⟨g, hg, hgpin⟩ : ∃ g ∈ s.gpios.values, g.pin = pin := by simpa using hused
        exact hfree g hg hgpin
      · have hfree : ∀ g ∈ s.gpios.values, g.pin ≠ pin := by simpa using hused
        cases htype : s.types.find? fun t => t.type = type with
        | none =>
          refine .inl ⟨by simp only [hpin, hused, not_true, if_false, Bool.false_eq_true], ?_⟩
          rintro ⟨-, -, -, t, ht⟩
          have hnot := List.find?_eq_none.mp htype t (by rw [htypes]; cases t <;> simp)
          exact hnot (by simpa using ht)
        | some t =>
          have ht : t.type = type := by simpa using List.find?_some htype
          refine .inr ⟨usage, t, ⟨by simp, hpin, forall_mem_known_pin.mpr hfree, t, ht⟩, ht, ?_⟩
          intro s' gpio hopen
          simp only [hpin, hused, hopen, not_true, if_false, Bool.false_eq_true,
            Int.one_ne_zero]
    · exact .inl ⟨by simp only [hpin, not_false_iff, if_true], fun h => hpin h.2.1⟩

theorem DriverType.type_inj {t t' : DriverType} : t.type = t'.type ↔ t = t' := by
  cases t <;> cases t' <;> decide

theorem Inv.gpio_open (hi : Inv s) (hgpio : w.gpio ∉ s.gpios.keys)
    (hmonitor : w.monitor ∉ s.monitors.keys) (pin : Int) (usage : Option String) (type : Int) :
    ∃ s' answer, gpio_open w s pin usage type = (s', answer) ∧ Inv s' ∧
      known s'.gpios = (Op.gpio_open pin usage type).handles w answer (known s.gpios) ∧
      (Opens (known s.gpios) pin usage type → answer = some w.gpio) ∧
      (¬Opens (known s.gpios) pin usage type → answer = none) := by
  have hget := Dictionary.get_eq_none_iff.mpr hgpio
  obtain ⟨hnone, hnot⟩ | ⟨name, t, hopens, htype, hopened⟩ :=
    gpio_open_cases w s pin usage type hi.types
  · exact ⟨s, none, hnone, hi, rfl, fun h => absurd h hnot, fun _ => rfl⟩
  · obtain ⟨s', g, hopen, hdrives, hsound, hgpin, hggpio, hgtype, hgdir⟩ :=
      open_drives ⟨pin, gpio_from_pin.getD pin.toNat (-1), name, t, .lock⟩ hi.tracks
        hget hmonitor rfl rfl
    have hu : Updates s.gpios w.gpio (some g) (s'.gpios.set w.gpio g) := by
      rw [hdrives.gpios]
      exact updates_set
    refine ⟨_, _, hopened s' g hopen, ⟨?_, ?_, ?_, ?_⟩, ?_, fun _ => rfl, fun h => absurd hopens h⟩
    · exact hdrives.types.trans hi.types
    · refine hi.placed.update hu ?_ ?_ ?_
      · intro _ h' g' hx hg' heq
        cases hx
        have hfree := forall_mem_known_pin.mp hopens.2.2.1
        exact absurd (heq.trans hgpin) (hfree g' (Dictionary.mem_values_iff.mpr ⟨h', hg'⟩))
      · intro _ hx
        cases hx
        rw [hgpin, hggpio]
        exact ⟨hopens.2.1, rfl⟩
      · intro _ hx
        cases hx
        exact hsound
    · intro t'
      have hcount := hi.refcount t'
      simp only [hdrives.gpios, hdrives.refcount, open_count_set, Dictionary.erase_eq_self hget,
        hgtype, eq_comm (a := t')]
      split_ifs <;> omega
    · exact hdrives.tracks hu
    · have hio : type = DriverType.io.type ↔ t = .io := by rw [← htype, DriverType.type_inj]
      simp only [hdrives.gpios, known_set_of_notMem hgpio, Op.handles, Gpio.known, hgpin, hgtype,
        htype, hgdir, hio]

theorem Inv.gpio_close (hi : Inv s) (hget : s.gpios.get handle = some gpio) :
    ∃ s', gpio_close s handle = .ok s' ∧ Inv s' ∧
      known s'.gpios = (known s.gpios).filter fun x => x.handle ≠ handle := by
  obtain ⟨s', hclose, hdrives⟩ := close_drives hi.tracks hget (hi.placed.sound hget)
  have hu : Updates s.gpios handle none (s'.gpios.erase handle) := by
    rw [hdrives.gpios]
    exact updates_erase
  refine ⟨_, by simp only [GpioManager.gpio_close, hget, hclose]; rfl, ⟨?_, ?_, ?_, ?_⟩, ?_⟩
  · exact hdrives.types.trans hi.types
  · exact hi.placed.update hu (by simp) (by simp) (by simp)
  · intro t
    have hcount := hi.refcount t
    rw [open_count_of_get hget] at hcount
    simp only [hdrives.gpios, hdrives.refcount, eq_comm (a := t)]
    split_ifs at hcount ⊢ <;> omega
  · exact hdrives.tracks hu
  · simp only [hdrives.gpios, known_erase]

/-- Another data of a handle. -/
theorem Inv.controls {data : TypeData} (hi : Inv s) (hget : s.gpios.get handle = some gpio)
    (hcontrols : Controls s handle gpio s' data) :
    Inv { s' with gpios := s'.gpios.set handle { gpio with type_data := data } } := by
  obtain ⟨hdrives, hsound⟩ := hcontrols
  have hu : Updates s.gpios handle (some { gpio with type_data := data })
      (s'.gpios.set handle { gpio with type_data := data }) := by
    rw [hdrives.gpios]
    exact updates_set
  constructor
  · exact hdrives.types.trans hi.types
  · have hmapped := hi.placed.mapped hget
    refine hi.placed.update hu ?_ ?_ ?_
    · intro _ h' g' hx hg' heq
      cases hx
      exact hi.placed.pins hg' hget heq
    · intro _ hx
      cases hx
      exact hmapped
    · intro _ hx
      cases hx
      exact hsound
  · intro t
    have hcount := hi.refcount t
    rw [open_count_of_get hget] at hcount
    simpa only [hdrives.gpios, hdrives.refcount, open_count_set] using hcount
  · exact hdrives.tracks hu

theorem Inv.gpio_ctl (hi : Inv s) (hget : s.gpios.get handle = some gpio)
    (hmonitor : w.monitor ∉ s.monitors.keys) (ctl : Ctl) :
    ∃ s' ret answer, gpio_ctl w s handle ctl = .ok (s', ret, answer) ∧ Inv s' ∧
      known s'.gpios = (Op.gpio_ctl handle ctl).handles w none (known s.gpios) := by
  obtain ⟨s', data, ret, answer, hctl, hcontrols, hturn⟩ :=
    ctl_controls hi.tracks hget hmonitor (hi.placed.sound hget) ctl
  have hinv := hi.controls hget hcontrols
  have hsame : ∀ ctl : Ctl, (∀ d, ctl.turn d = d) →
      known s.gpios = (Op.gpio_ctl handle ctl).handles w none (known s.gpios) := by
    intro ctl hd
    simp [Op.handles, hd]
  cases ctl with
  | getPinNumber | getGpioNumber | getType | getUsage =>
    exact ⟨s, _, _, by simp only [GpioManager.gpio_ctl, hget]; rfl, hi, hsame _ fun _ => rfl⟩
  | getValue | setValue | getDirection | setDirection | setChangeCallback | getPeriod | setPeriod
    | getPulse | setPulse | getPulses | setPulses | other =>
    refine ⟨_, _, _, by simp only [GpioManager.gpio_ctl, hget, hctl]; rfl, hinv, ?_⟩
    rw [hcontrols.1.gpios]
    exact known_ctl hget hturn

/-- Every operation is carried out, and the manager lists the handles that are open after it. -/
theorem Inv.perform (hi : Inv s) (hl : op.Legal s (known s.gpios) w) : ∃ s',
    op.perform s w = .ok s' ∧ Inv s' ∧
      known s'.gpios = op.handles w (op.answer s w) (known s.gpios) := by
  obtain ⟨hgpio, hmonitor, hhandle⟩ := hl
  rw [map_handle_known] at hgpio
  have hopen : ∀ {h}, h ∈ (known s.gpios).map Handle.handle → ∃ gpio, s.gpios.get h = some gpio := by
    intro h hmem
    rw [map_handle_known] at hmem
    exact Option.isSome_iff_exists.mp (Dictionary.get_isSome_iff.mpr hmem)
  cases op with
  | gpio_open pin usage type =>
    obtain ⟨s', answer, hs', hinv, hknown, _⟩ := hi.gpio_open hgpio hmonitor pin usage type
    refine ⟨s', by simp only [Op.perform, hs']; rfl, hinv, ?_⟩
    rw [Op.answer, hs']
    exact hknown
  | gpio_close handle =>
    obtain ⟨gpio, hget⟩ := hopen hhandle
    exact hi.gpio_close hget
  | gpio_ctl handle ctl =>
    obtain ⟨gpio, hget⟩ := hopen hhandle
    obtain ⟨s', ret, answer, hctl, hinv, hknown⟩ := hi.gpio_ctl hget hmonitor ctl
    exact ⟨s', by simp only [Op.perform, hctl]; rfl, hinv, hknown⟩

theorem Inv.run {ops : List (World × Op)} {handles : List Handle}
    (hrun : Steps Step (gpio_init, []) ops (s, handles)) : Inv s ∧ known s.gpios = handles := by
  refine Steps.invariant (P := fun x => Inv x.1 ∧ known x.1.gpios = x.2) (fun hx hstep => ?_) hrun
    ⟨.init, rfl⟩
  obtain ⟨hi, hknown⟩ := hx
  obtain ⟨s', hs', hinv, hafter⟩ := hi.perform (hknown ▸ hstep.legal)
  rw [hstep.performed] at hs'
  obtain rfl := Except.ok.inj hs'
  exact ⟨hinv, hafter.trans (hknown ▸ hstep.handles.symm)⟩

/-- What the manager and the driver of the pins keep about the handles that are open. -/
structure Bookkept (s : State) (handles : List Handle) : Prop where
  listed : ∀ x, x ∈ handles ↔ ∃ g, s.gpios.get x.handle = some g ∧ g.known x.handle = x
  distinct : (handles.map Handle.handle).Nodup
  pins : (handles.map Handle.pin).Nodup
  mapped : ∀ x ∈ handles, x.pin ∈ GpioManager.pins ∧ gpio_from_pin.getD x.pin.toNat (-1) ≠ -1 ∧
    ∀ g, s.gpios.get x.handle = some g → g.gpio = gpio_from_pin.getD x.pin.toNat (-1)
  refcount : ∀ t, s.refcount t = handles.countP fun x => x.type = t.type
  io : ∀ x ∈ handles, x.type = DriverType.io.type ↔ x.direction ≠ none
  watched : ∀ x ∈ handles, x.direction = some .in → ∃ g io m, s.gpios.get x.handle = some g ∧
    g.type_data = .io io ∧ io.monitor = some m ∧
      ∀ m', (∃ data, s.monitors.get m' = some data ∧ data.gpio = x.handle) ↔ m' = m
  unwatched : ∀ data ∈ s.monitors.values, ∃ x ∈ handles, x.handle = data.gpio ∧
    x.direction = some .in

theorem gpio_from_pin_ne : ∀ pin ∈ pins, gpio_from_pin.getD pin.toNat (-1) ≠ -1 := by decide

theorem watched_eq_some_iff : gpio.watched = some m ↔
    ∃ io, gpio.type_data = .io io ∧ io.direction = .in ∧ io.monitor = some m := by
  unfold Gpio.watched
  cases gpio.type_data <;> simp

theorem direction_eq_some_iff {direction : Direction} : gpio.direction = some direction ↔
    ∃ io, gpio.type_data = .io io ∧ io.direction = direction := by
  unfold Gpio.direction TypeData.direction
  cases gpio.type_data <;> simp

theorem Placed.nodup_pins (hp : Placed gpios) : ((known gpios).map Handle.pin).Nodup := by
  have hkeys : ((known gpios).map Handle.handle).Nodup := map_handle_known ▸ gpios.nodup_keys
  refine List.Nodup.map_on (fun x hx y hy heq => ?_) (List.Nodup.of_map _ hkeys)
  obtain ⟨g, hg, hgx⟩ := mem_known.mp hx
  obtain ⟨g', hg', hgy⟩ := mem_known.mp hy
  have hpin : g.pin = g'.pin := by rwa [← hgx, ← hgy] at heq
  have hh := hp.pins hg hg' hpin
  rw [hh, hg'] at hg
  obtain rfl := Option.some.inj hg
  rw [← hgx, ← hgy, hh]

theorem Inv.bookkept (hi : Inv s) : Bookkept s (known s.gpios) where
  listed _ := mem_known
  distinct := map_handle_known ▸ s.gpios.nodup_keys
  pins := hi.placed.nodup_pins
  mapped x hx := by
    obtain ⟨g, hget, hknown⟩ := mem_known.mp hx
    obtain ⟨hpin, hgpio⟩ := hi.placed.mapped hget
    rw [show x.pin = g.pin from hknown ▸ rfl]
    refine ⟨hpin, gpio_from_pin_ne g.pin hpin, fun g' hget' => ?_⟩
    rw [hget] at hget'
    obtain rfl := Option.some.inj hget'
    exact hgpio
  refcount t := by
    rw [hi.refcount, open_count, known, Dictionary.values, List.countP_map, List.countP_map]
    refine List.countP_congr fun e _ => ?_
    simp [Gpio.known, DriverType.type_inj]
  io x hx := by
    obtain ⟨g, hget, hknown⟩ := mem_known.mp hx
    have hsound := hi.placed.sound hget
    rw [← hknown]
    cases hdata : g.type_data <;>
      simp_all [Gpio.Sound, Gpio.known, Gpio.direction, TypeData.direction, DriverType.type]
  watched x hx hdir := by
    obtain ⟨g, hget, hknown⟩ := mem_known.mp hx
    rw [← hknown] at hdir
    obtain ⟨io, hdata, hin⟩ := direction_eq_some_iff.mp hdir
    have hsound := hi.placed.sound hget
    simp only [Gpio.Sound, hdata] at hsound
    obtain ⟨m, hm⟩ := Option.ne_none_iff_exists'.mp (hsound.2 hin)
    have hw : g.watched = some m := watched_eq_some_iff.mpr ⟨io, hdata, hin, hm⟩
    refine ⟨g, io, m, hget, hdata, hm, fun m' => ?_⟩
    have htracks := hi.tracks m' x.handle
    rw [hget, Option.map_eq_some_iff] at htracks
    rw [htracks]
    simp [hw, eq_comm]
  unwatched data hdata := by
    obtain ⟨m, hget⟩ := Dictionary.mem_values_iff.mp hdata
    obtain ⟨g, hg, hw⟩ := Option.bind_eq_some_iff.mp ((hi.tracks m data.gpio).mp (by rw [hget]; rfl))
    obtain ⟨io, htype, hin, _⟩ := watched_eq_some_iff.mp hw
    exact ⟨g.known data.gpio, mem_known.mpr ⟨g, hg, rfl⟩, rfl,
      direction_eq_some_iff.mpr ⟨io, htype, hin⟩⟩

/-- Without handles there are no monitors and nothing counts. -/
theorem Inv.gpio_terminate (hi : Inv s) (hclosed : s.gpios.entries = []) :
    Checked.Succeeds (gpio_terminate s) := by
  have hnone : ∀ h, s.gpios.get h = none := by simp [Dictionary.get, hclosed]
  have hmonitors : s.monitors.entries = [] := by
    refine List.map_eq_nil_iff.mp (Dictionary.keys_eq_nil_iff.mpr fun m => ?_)
    by_contra hm
    obtain ⟨data, hdata⟩ := Option.ne_none_iff_exists'.mp hm
    have htracks := (hi.tracks m data.gpio).mp (by rw [hdata]; rfl)
    simp [hnone] at htracks
  have hrefcount : ∀ t, s.refcount t = 0 := by
    intro t
    rw [hi.refcount, open_count, Dictionary.values, hclosed]
    rfl
  simp [GpioManager.gpio_terminate, io_terminate, unregister_type, hmonitors, hrefcount, hi.types, hclosed,
    Checked.succeeds_pure, bind, Except.bind]

/-- Whatever is opened, controlled and closed, the books are kept about the handles that are open
then, every operation with them is carried out, `gpio_open` opens what can be opened, and when every
handle is closed nothing remains that the end would complain about. -/
theorem bookkept_of_run {ops : List (World × Op)} {handles : List Handle}
    (hrun : Steps Step (gpio_init, []) ops (s, handles)) :
    Bookkept s handles ∧ (handles = [] → Checked.Succeeds (gpio_terminate s)) ∧
      ∀ w op, Op.Legal s handles w op → Checked.Succeeds (op.perform s w) ∧
        ∀ pin usage type, op = .gpio_open pin usage type →
          (op.answer s w = some w.gpio ↔ Opens handles pin usage type) := by
  obtain ⟨hi, rfl⟩ := Inv.run hrun
  refine ⟨hi.bookkept, fun hclosed => hi.gpio_terminate ?_, fun w op hl => ⟨?_, ?_⟩⟩
  · simpa [known] using hclosed
  · obtain ⟨s', hs', _⟩ := hi.perform hl
    exact ⟨s', hs'⟩
  · rintro pin usage type rfl
    obtain ⟨s', answer, hs', _, _, hopens, hnot⟩ :=
      hi.gpio_open (map_handle_known ▸ hl.gpio) hl.monitor pin usage type
    rw [Op.answer, hs']
    refine ⟨fun hanswer => ?_, hopens⟩
    by_contra hno
    simp [hnot hno] at hanswer

/-- An input is opened, turned round and closed again. -/
theorem bookkept_of_run_closed : ∃ (w w' w'' : World) (s : State),
    Steps Step (gpio_init, []) [(w, .gpio_open 3 (some "button") 1),
      (w', .gpio_ctl 1 (.setDirection .out)), (w'', .gpio_close 1)] (s, []) ∧
    Sysfs.close 5 ∈ s.sysfs ∧ Bookkept s [] ∧ Checked.Succeeds (gpio_terminate s) := by
  let w : World := ⟨1, 2, none, "in", "1", 0, 0, 0, 5⟩
  let w' : World := { w with gpio := 3, monitor := 4 }
  let s₁ := (gpio_open w gpio_init 3 (some "button") 1).1
  let io : Io := ⟨.out, none, none, 1, none⟩
  let s₂ : State := { s₁ with
    gpios := s₁.gpios.set 1 ⟨3, 2, "button", .io, .io io⟩
    monitors := s₁.monitors.erase 2
    sysfs := s₁.sysfs ++ [.close 5, .write .io 2 "direction" "out"] }
  let s₃ : State := { s₂ with
    refcount := fun t => if t = .io then s₂.refcount t - 1 else s₂.refcount t
    gpios := s₂.gpios.erase 1
    sysfs := s₂.sysfs ++ [.write .io 2 "direction" "in", .unexport .io 2] }
  have hopened : Step (gpio_init, []) (w, .gpio_open 3 (some "button") 1)
      (s₁, [⟨1, 3, 1, some .in⟩]) := ⟨⟨by decide, by decide, trivial⟩, rfl, rfl⟩
  have hturned : Step (s₁, [⟨1, 3, 1, some .in⟩]) (w', .gpio_ctl 1 (.setDirection .out))
      (s₂, [⟨1, 3, 1, some .out⟩]) := ⟨⟨by decide, by decide, by decide⟩, rfl, rfl⟩
  have hclosed : Step (s₂, [⟨1, 3, 1, some .out⟩]) (w', .gpio_close 1) (s₃, []) :=
    ⟨⟨by decide, by decide, by decide⟩, rfl, rfl⟩
  have hrun := Steps.cons hopened (.cons hturned (.cons hclosed (.nil _)))
  obtain ⟨hbookkept, hterminate, _⟩ := bookkept_of_run hrun
  exact ⟨w, w', w', s₃, hrun, by decide, hbookkept, hterminate rfl⟩

end MyLifeHome.Components.GpioManager
