import TTLinux.Lib.Traced
import TTLinux.Model.W83627dhgInit

/-!
# The arrays of the W83627DHG GPIO driver

The functions of the driver (kernel/2.6.30/patches/w83627dhg-generic.patch) that use `iomap`, `outmask` and
`polarity`, with each access to an element. What they do to the board and to the other variables is as in the
model of the driver, as long as the accesses are in bounds: the source says nothing about a run with one that
is not.
-/

set_option autoImplicit false

namespace TTLinux.Model.W83627dhgArrays

open TTLinux.Lib TTLinux.Lib.SuperIo
open TTLinux.Model.GpioKernel hiding EINVAL
open TTLinux.Model.W83627dhg hiding devmap gpioGet gpioInit gpioSet mapLines registerLines setupFound setupGpio enablePorts

/-- `W83627DHG_GPIO_COUNT`.
SOURCE: w83627dhg-generic.patch:97 -/
def W83627DHG_GPIO_COUNT : ℕ := 5

/-- An access to an element of an array. -/
inductive Access where
  | iomap (line : ℕ)
  | outmask (index : ℕ)
  | polarity (index : ℕ)
deriving DecidableEq

/-- The element is one of the array.
SOURCE: w83627dhg-generic.patch:134-141, 187-188 -/
def Access.InBounds : Access → Prop
  | .iomap line => line < 8 + GPIO_MAX
  | .outmask index => index < 1 + W83627DHG_GPIO_COUNT
  | .polarity index => index < 1 + W83627DHG_GPIO_COUNT

instance (a : Access) : Decidable a.InBounds := by
  cases a <;> exact inferInstanceAs (Decidable (_ < _))

/-- The reads and writes of the elements. -/
def readOutmask (outmask : ℕ → Byte) (index : ℕ) : Traced Access Byte := .give [.outmask index] (outmask index)

def readPolarity (polarity : ℕ → Byte) (index : ℕ) : Traced Access Byte := .give [.polarity index] (polarity index)

def readIomap (iomap : ℕ → GpioIomap) (line : ℕ) : Traced Access GpioIomap := .give [.iomap line] (iomap line)

def writeIomap (iomap : ℕ → GpioIomap) (line : ℕ) (m : GpioIomap) : Traced Access (ℕ → GpioIomap) :=
  .give [.iomap line] (Function.update iomap line m)

/-! ## The lines -/

/-- `setup_gpio`.
SOURCE: w83627dhg-generic.patch:461-516 -/
def setupGpio (cfg : Settings) (port : ℕ) (check : Bool) (hw : Machine) : Traced Access Machine :=
  let portidx := port - 1
  let offset := cfgOffset port
  (readPolarity cfg.polarity portidx).bind fun polarity =>
    let hw := setupRegister cfg (offset + 0x2#8) polarity polarity check hw
    (readOutmask cfg.outmask portidx).bind fun outmask =>
      .give [] (setupRegister cfg (offset + 0x0#8) outmask (~~~outmask) check hw)

/-- `w83627dhg_gpio_set` uses no array.
SOURCE: w83627dhg-generic.patch:564-615 -/
def gpioSet (drv : Driver) (minor state : Byte) (hw : Machine) : Traced Access (ℤ × Machine) :=
  .give [] (W83627dhg.gpioSet drv minor state hw)

/-- `w83627dhg_gpio_get`.
SOURCE: w83627dhg-generic.patch:621-683 -/
def gpioGet (cfg : Settings) (minor lastbyte : Byte) (hw : Machine) :
    Traced Access (ℤ × Option Byte × Byte × Machine) :=
  let base := portaddr minor.toNat
  let mask := 0x1#8 <<< (minor &&& 0x7#8)
  if base = 0 then .give [] (-EINVAL, none, lastbyte, hw)
  else
    let hw := enterConfig cfg.cirAddr hw
    let (rc, hw) := selectLdnGpio cfg.toDriver (PORTNO minor.toNat) hw
    let hw := enableGpio cfg.toDriver (PORTNO minor.toNat) false hw
    let hw := showMasks cfg.toDriver base hw
    let checked : Traced Access Machine :=
      if cfg.paranoid then
        (readOutmask cfg.outmask (PORT minor.toNat)).bind fun outmask =>
          if outmask &&& mask = 0 then setupGpio cfg (PORTNO minor.toNat) true hw else .give [] hw
      else .give [] hw
    checked.bind fun hw =>
      if rc ≠ 0 then .give [] (rc, none, lastbyte, exitConfig cfg.cirAddr hw)
      else
        let hw := selCtlReg cfg.toDriver base hw
        let inbyte := hw.inb (CDR_ADDR cfg.cirAddr)
        let hw := exitConfig cfg.cirAddr hw
        .give [] (if inbyte = 0xFF#8 then (0, some (if lastbyte &&& mask ≠ 0 then 1 else 0), lastbyte, hw)
          else (0, some (if inbyte &&& mask ≠ 0 then 1 else 0), inbyte, hw))

/-- The loop of `w83627dhg_devmap`.
SOURCE: w83627dhg-generic.patch:776-801 -/
def devmapLoop (outmask : ℕ → Byte) (pn base : ℕ) :
    ℕ → ℕ → (ℕ → GpioIomap) → DevCount → Traced Access ((ℕ → GpioIomap) × DevCount)
  | 0, _, iomap, count => .give [] (iomap, count)
  | bit + 1, i, iomap, count =>
    let line := base + bit
    (readOutmask outmask pn).bind fun byte =>
      if byte.getLsbD bit then
        let count := { count with output := count.output + 1 }
        match lissnames[i]? with
        | some name =>
          (writeIomap iomap line ⟨.output, fitName name⟩).bind fun iomap =>
            devmapLoop outmask pn base bit (i + 1) iomap count
        | none =>
          (writeIomap iomap line ⟨.output, gpioName line⟩).bind fun iomap =>
            devmapLoop outmask pn base bit i iomap count
      else
        (writeIomap iomap line ⟨.input, gpioName line⟩).bind fun iomap =>
          devmapLoop outmask pn base bit i iomap { count with input := count.input + 1 }

/-- `w83627dhg_devmap`.
SOURCE: w83627dhg-generic.patch:764-802 -/
def devmap (outmask : ℕ → Byte) (pn : ℕ) (iomap : ℕ → GpioIomap) (count : DevCount) :
    Traced Access ((ℕ → GpioIomap) × DevCount) :=
  devmapLoop outmask pn (pn * 8) 8 0 iomap count

/-! ## The initialization -/

/-- The loop that enables the ports.
SOURCE: w83627dhg-generic.patch:892-899 -/
def enablePorts (cfg : Settings) (portmask : Byte) (hw : Machine) : Traced Access Machine :=
  Traced.foldl (fun hw pn =>
    if portmask.getLsbD (pn - 1) then
      let hw := (selectLdnGpio cfg.toDriver pn hw).2
      let hw := enableGpio cfg.toDriver pn true hw
      setupGpio cfg pn false hw
    else .give [] hw) [6, 5, 4, 3, 2] hw

/-- The device numbers and the map of the lines.
SOURCE: w83627dhg-generic.patch:921-941 -/
def mapLines (v : Vars) : Traced Access (Vars × DevCount) :=
  let pn := firstPort v.portmask 6 6 1
  (devmap v.outmask pn v.iomap ⟨0, 0⟩).bind fun first =>
    (Traced.foldl (fun (iomap, count) pn =>
        if v.portmask.getLsbD pn then devmap v.outmask pn iomap count else .give [] (iomap, count))
      (List.range' (pn + 1) (5 - pn)) first).bind fun (iomap, count) =>
        .give [] ({ v with firstminor := pn * 8, iomap := iomap, numdevs := count.input + count.output }, count)

/-- The registration of the devices behind the loop of `w83627dhg_setup_platform_devs`.
SOURCE: w83627dhg-generic.patch:842-861 -/
def registerDevices (k : Kernel) (a : ResourceArrays) (count : DevCount) (pdevin : Pdev) :
    ℤ × Pdev × Pdev × List KernelCall :=
  let outname := DRVNAME ++ "-out".toList
  let inname := DRVNAME ++ "-in".toList
  let ores := (List.range count.output).map a.ores
  let ires := (List.range count.input).map a.ires
  if k.platformDeviceRegisterSimple outname ores = false then
    (-ENOMEM, .err, pdevin, [.registerDevice outname ores false])
  else if k.platformDeviceRegisterSimple inname ires = false then
    (-ENOMEM, .device outname, .err, [.registerDevice outname ores true, .registerDevice inname ires false])
  else
    (0, .device outname, .device inname, [.registerDevice outname ores true, .registerDevice inname ires true])

/-- `w83627dhg_setup_platform_devs`.
SOURCE: w83627dhg-generic.patch:805-862 -/
def setupPlatformDevs (k : Kernel) (stack : ℕ → Resource) (iomap : ℕ → GpioIomap) (count : DevCount)
    (pdevin : Pdev) : Traced Access (ℤ × Pdev × Pdev × List KernelCall) :=
  (Traced.foldl (fun a m => (readIomap iomap m).bind fun line => .give [] (fillResource (fun _ => line) a m))
    (List.range' 8 GPIO_MAX) ⟨0, 0, stack, stack⟩).bind fun a => .give [] (registerDevices k a count pdevin)

/-- The registration of the lines.
SOURCE: w83627dhg-generic.patch:947-988 -/
def registerLines (k : Kernel) (stack : ℕ → Resource) (count : DevCount) (rc : ℤ) (s : System) :
    Traced Access (ℤ × System) :=
  let (rc, s) :=
    if rc = 0 then
      let (rc, major, call) := allocateNumbers k s.vars.major s.vars.firstminor s.vars.numdevs
      (rc, { s with vars := { s.vars with major := major }, log := s.log ++ [call] })
    else (rc, s)
  let registered : Traced Access (ℤ × System) :=
    if rc = 0 then
      (setupPlatformDevs k stack s.vars.iomap count s.vars.pdevin).bind fun (rc, pdevout, pdevin, calls) =>
        .give [] (rc, { s with vars := { s.vars with pdevout := pdevout, pdevin := pdevin }, log := s.log ++ calls })
    else .give [] (rc, s)
  registered.bind fun (rc, s) =>
    if rc ≠ 0 then
      let released := if s.vars.gpioMapped then [.releaseRegion s.vars.gpioBase W83627DHG_GPIO_SIZE] else []
      .give [] (if rc ≠ -ENODEV then -1 else rc,
        { s with log := s.log ++ released ++ dropDevice s.vars.pdevin ++ dropDevice s.vars.pdevout })
    else .give [] (0, { s with log := s.log ++ [.cdevAdd s.vars.major s.vars.firstminor s.vars.numdevs] })

/-- `w83627dhg_gpio_init` with a chip that is found.
SOURCE: w83627dhg-generic.patch:892-990 -/
def setupFound (k : Kernel) (stack : ℕ → Resource) (s : System) : Traced Access (ℤ × System) :=
  (enablePorts s.vars.toSettings s.vars.portmask s.hw).bind fun hw =>
    let (rc, s) := requestGpio k { s with hw := hw }
    (mapLines s.vars).bind fun (vars, count) =>
      (registerLines k stack count rc { s with vars := vars }).bind fun (rc, s) =>
        .give [] (rc, { s with hw := exitConfig s.vars.cirAddr s.hw })

/-- `w83627dhg_gpio_init`.
SOURCE: w83627dhg-generic.patch:865-991 -/
def gpioInit (k : Kernel) (stack : ℕ → Resource) (s : System) : Traced Access (ℤ × System) :=
  let vars := { s.vars with portmask := s.vars.portmask &&& 0x7E#8 }
  if vars.portmask = 0 then .give [] (-EINVAL, { s with vars := vars })
  else
    match find s.hw with
    | (none, hw) => .give [] (-ENODEV, { s with vars := vars, hw := hw })
    | (some cirAddr, hw) => setupFound k stack { s with vars := { vars with cirAddr := cirAddr }, hw := hw }

end TTLinux.Model.W83627dhgArrays
