import TTLinux.Model.W83627dhgInit

/-!
# The LED driver for the W83627DHG

The LED driver makes a LED of each output line that the GPIO driver exports as a resource of its platform
device (kernel/2.6.30/patches/w83627dhg-leds.patch). The array of the LEDs is a function; the indices it is
accessed at and the calls of the LED class are kept in lists. Every resource has a name.
-/

set_option autoImplicit false

namespace TTLinux.Model.W83627dhgLeds

open TTLinux.Lib.SuperIo
open TTLinux.Model.GpioKernel (Name Resource)
open TTLinux.Model.W83627dhg (Driver GPIO_MAX gpioSet)

def LED_OFF : ℕ := 0
def LED_FULL : ℕ := 255
def IORESOURCE_BITS : ℕ := 0xFF

/-- `struct w83627dhg_led_device` with its `led_classdev`.
SOURCE: w83627dhg-leds.patch:70-73 -/
structure LedDevice where
  name : Option Name
  brightness : ℕ
  flags : ℕ
  /-- `brightness_set` is the function of this driver. -/
  brightnessSet : Bool
  defaultTrigger : Option Name
  state : ℕ
deriving DecidableEq

/-- A call of the LED class, with its answer. -/
inductive LedCall where
  | register (index : ℕ) (rc : ℤ)
  | unregister (index : ℕ)
deriving DecidableEq

/-- The LEDs, the board, the calls of the LED class and the indices of `w83627dhg_led_devices`. -/
structure Leds where
  devices : ℕ → LedDevice
  hw : Machine
  calls : List LedCall
  indices : List ℕ

/-- Change a LED. -/
def modifyLed (index : ℕ) (f : LedDevice → LedDevice) (t : Leds) : Leds :=
  { t with devices := Function.update t.devices index (f (t.devices index)), indices := t.indices ++ [index] }

variable (drv : Driver)

/-- `w83627dhg_led_brightness_set` for the LED with this index.
SOURCE: w83627dhg-leds.patch:82-97 -/
def ledBrightnessSet (gpio_pin value : ℕ) (t : Leds) : Leds :=
  if gpio_pin < 8 + GPIO_MAX ∧ (t.devices gpio_pin).name ≠ none then
    { t with hw := (gpioSet drv (BitVec.ofNat 8 gpio_pin) (if value = LED_OFF then 0 else 1) t.hw).2 }
  else t

/-- `w83627dhg_led_remove_one_led`.
SOURCE: w83627dhg-leds.patch:134-138 -/
def ledRemoveOneLed (index : ℕ) (t : Leds) : Leds :=
  modifyLed index (fun led => { led with name := none }) { t with calls := t.calls ++ [.unregister index] }

/-- `for_all_leds`: the resources that are for LEDs.
SOURCE: w83627dhg-leds.patch:102-105 -/
def forAllLeds (resource : List Resource) : List Resource := resource.filter fun r => r.start < GPIO_MAX

/-- `w83627dhg_led_remove`.
SOURCE: w83627dhg-leds.patch:110-118, 140-143 -/
def ledRemove (resource : List Resource) (t : Leds) : Leds :=
  (forAllLeds resource).foldl (fun t r => ledRemoveOneLed r.start t) t

/-- A LED that is not in use is set up.
SOURCE: w83627dhg-leds.patch:165-190 -/
def setupLed (gpio_pin : ℕ) (r : Resource) (t : Leds) : Leds :=
  if (t.devices gpio_pin).name = none then
    let state := r.flags &&& IORESOURCE_BITS
    modifyLed gpio_pin (fun _ => {
      name := some r.name
      brightness := if state ≠ 0 then LED_FULL else LED_OFF
      flags := 0
      brightnessSet := true
      defaultTrigger := none
      state := state })
      { t with hw := (gpioSet drv (BitVec.ofNat 8 gpio_pin) 1 t.hw).2, indices := t.indices ++ [gpio_pin] }
  else { t with indices := t.indices ++ [gpio_pin] }

/-- The loop of `w83627dhg_led_probe`, with what `led_classdev_register` answers to the call for each LED.
SOURCE: w83627dhg-leds.patch:160-202 -/
def probeLoop (led_classdev_register : ℕ → ℤ) (resource : List Resource) : List Resource → Leds → ℤ × Leds
  | [], t => (0, t)
  | r :: rest, t =>
    let gpio_pin := r.start % 256
    let t := setupLed drv gpio_pin r t
    let rc := led_classdev_register gpio_pin
    let t := { t with calls := t.calls ++ [.register gpio_pin rc], indices := t.indices ++ [gpio_pin] }
    if rc < 0 then
      (rc, ledRemove resource (modifyLed gpio_pin (fun led => { led with name := none }) t))
    else probeLoop led_classdev_register resource rest t

/-- `w83627dhg_led_probe`.
SOURCE: w83627dhg-leds.patch:145-205 -/
def ledProbe (led_classdev_register : ℕ → ℤ) (resource : List Resource) (t : Leds) : ℤ × Leds :=
  probeLoop drv led_classdev_register resource (forAllLeds resource) t

end TTLinux.Model.W83627dhgLeds
