import TTLinux.Model.W83627dhgLeds

/-!
# The probe of the LED driver

`w83627dhg_led_probe` with its failure path (kernel/2.6.30/patches/w83627dhg-leds.patch) on all lists of
resources, also those with a null name or with one line twice, where the LED class answers call after
call. A LED is set up and removed as in the model of the driver.
-/

set_option autoImplicit false

namespace TTLinux.Model.W83627dhgLedProbe

open TTLinux.Model.GpioKernel (Name Resource)
open TTLinux.Model.W83627dhg (Driver GPIO_MAX)
open TTLinux.Model.W83627dhgLeds (Leds modifyLed setupLed ledRemoveOneLed)

/-- `struct resource` of a platform device, with a name that may be null. -/
structure BoardResource where
  name : Option Name
  start : ℕ
  stop : ℕ
  flags : ℕ
deriving DecidableEq

/-- `for_all_leds`: the resources that are for LEDs.
SOURCE: w83627dhg-leds.patch:102-105 -/
def forAllLeds (resource : List BoardResource) : List Resource :=
  resource.filterMap fun r =>
    if r.start < GPIO_MAX then r.name.map fun name => ⟨name, r.start, r.stop, r.flags⟩ else none

/-- `w83627dhg_led_remove`.
SOURCE: w83627dhg-leds.patch:110-118, 140-143 -/
def ledRemove (resource : List BoardResource) (t : Leds) : Leds :=
  (forAllLeds resource).foldl (fun t r => ledRemoveOneLed r.start t) t

/-- The loop of `w83627dhg_led_probe`, where `led_classdev_register` was called `calls` times and answers to
each call.
SOURCE: w83627dhg-leds.patch:160-202 -/
def probeLoop (drv : Driver) (led_classdev_register : ℕ → ℤ) (resource : List BoardResource) :
    List Resource → ℕ → Leds → ℤ × Leds
  | [], _, t => (0, t)
  | r :: rest, calls, t =>
    let gpio_pin := r.start % 256
    let t := setupLed drv gpio_pin r t
    let rc := led_classdev_register calls
    let t := { t with calls := t.calls ++ [.register gpio_pin rc], indices := t.indices ++ [gpio_pin] }
    if rc < 0 then
      (rc, ledRemove resource (modifyLed gpio_pin (fun led => { led with name := none }) t))
    else probeLoop drv led_classdev_register resource rest (calls + 1) t

/-- `w83627dhg_led_probe`.
SOURCE: w83627dhg-leds.patch:145-205 -/
def ledProbe (drv : Driver) (led_classdev_register : ℕ → ℤ) (resource : List BoardResource) (t : Leds) : ℤ × Leds :=
  probeLoop drv led_classdev_register resource (forAllLeds resource) 0 t

end TTLinux.Model.W83627dhgLedProbe
