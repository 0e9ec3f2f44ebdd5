import TTLinux.Model.GpioKernel
import TTLinux.Model.W83627dhg

/-!
# The initialization of the W83627DHG GPIO driver

`w83627dhg_gpio_init` looks for the chip, sets up the ports that are enabled and registers their lines
(kernel/2.6.30/patches/w83627dhg-generic.patch). `Vars` holds all module variables and `System` the
module with the board and the calls of the kernel so far.
-/

set_option autoImplicit false

namespace TTLinux.Model.W83627dhg

open TTLinux.Lib.SuperIo
open TTLinux.Model.GpioKernel hiding EINVAL

/-- `DRVNAME`, `GPIO_MAX` and `W83627DHG_GPIO_SIZE`.
SOURCE: w83627dhg-generic.patch:42, 94, 100 -/
def DRVNAME : Name := "w83627dhg-gpio".toList
def GPIO_MAX : ℕ := 40
def W83627DHG_GPIO_SIZE : ℕ := 5

/-- The module variables. `iomap` has 48 elements in the source. Behind its end the driver would write over the
variables that follow it, which this record does not say: that the accesses are in bounds is part of what
`W83627dhgArrays` computes, and fails for port 7 alone.
SOURCE: w83627dhg-generic.patch:109-145, 187-194, 626 -/
structure Vars extends Settings where
  major : ℤ
  gpioBase : ℕ
  portmask : Byte
  iomap : ℕ → GpioIomap
  pdevin : Pdev
  pdevout : Pdev
  firstminor : ℕ
  numdevs : ℕ
  gpioMapped : Bool
  /-- The static variable of `w83627dhg_gpio_get`. -/
  lastbyte : Byte

/-- The module, the board and the calls of the kernel that were made. -/
structure System where
  vars : Vars
  hw : Machine
  log : List KernelCall

/-! ## The chip -/

/-- `w83627dhg_test`.
SOURCE: w83627dhg-generic.patch:519-534 -/
def test (cirAddress : Byte) (hw : Machine) : Bool × Machine :=
  let hw := enterConfig cirAddress hw
  let hw := hw.outb 0x20#8 cirAddress.toNat
  let high := hw.inb (CDR_ADDR cirAddress)
  let hw := hw.outb 0x21#8 cirAddress.toNat
  let low := hw.inb (CDR_ADDR cirAddress)
  ((high ++ low) &&& 0xFFF0#16 = 0xA020#16, hw)

/-- `w83627dhg_find`: the address of the chip, or none with `-ENODEV`.
SOURCE: w83627dhg-generic.patch:536-558 -/
def find (hw : Machine) : Option Byte × Machine :=
  let (found, hw) := test 0x2E#8 hw
  if found then (some 0x2E#8, hw)
  else
    let (found, hw) := test 0x4E#8 hw
    if found then (some 0x4E#8, hw) else (none, hw)

/-- The loop that enables the ports, from port 6 to port 2.
SOURCE: w83627dhg-generic.patch:892-899 -/
def enablePorts (cfg : Settings) (portmask : Byte) (hw : Machine) : Machine :=
  [6, 5, 4, 3, 2].foldl (fun hw pn =>
    if portmask.getLsbD (pn - 1) then
      let hw := (selectLdnGpio cfg.toDriver pn hw).2
      let hw := enableGpio cfg.toDriver pn true hw
      setupGpio cfg pn false hw
    else hw) hw

/-- `w83627dhg_gpiobase`.
SOURCE: w83627dhg-generic.patch:383-401 -/
def gpiobase (drv : Driver) (hw : Machine) : ℕ × Machine :=
  let (high, hw) := getRegister drv 0x60#8 hw
  let (low, hw) := getRegister drv 0x61#8 hw
  (high.toNat <<< 8 + low.toNat, hw)

/-- The request for the I/O region: the return value.
SOURCE: w83627dhg-generic.patch:901-919 -/
def requestGpio (k : Kernel) (s : System) : ℤ × System :=
  if s.vars.portmask &&& 0x3D#8 = 0 then (0, s)
  else
    let (base, hw) := if s.vars.gpioBase = 0 then gpiobase s.vars.toDriver s.hw else (s.vars.gpioBase, s.hw)
    let s := { s with vars := { s.vars with gpioBase := base }, hw := hw }
    if base ≠ 0 ∧ base < 0xFFFF then
      let granted := k.requestRegion base W83627DHG_GPIO_SIZE
      let s := { s with log := s.log ++ [.requestRegion base W83627DHG_GPIO_SIZE granted] }
      if granted then (0, { s with vars := { s.vars with gpioMapped := true } }) else (-ENODEV, s)
    else (0, s)

/-! ## The lines -/

/-- The names of the first outputs.
SOURCE: w83627dhg-generic.patch:769 -/
def lissnames : List Name :=
  ["unlock".toList, "masterr".toList, "state".toList, "lock".toList, "masterg".toList, "ready".toList]

/-- `w83627dhg_devmap`.
SOURCE: w83627dhg-generic.patch:764-802 -/
def devmap (outmask : ℕ → Byte) (pn : ℕ) (iomap : ℕ → GpioIomap) (count : DevCount) :
    (ℕ → GpioIomap) × DevCount :=
  devmapLoop lissnames (outmask pn) (pn * 8) 8 0 iomap count

/-- The device numbers and the map of the lines.
SOURCE: w83627dhg-generic.patch:921-941 -/
def mapLines (v : Vars) : Vars × DevCount :=
  let pn := firstPort v.portmask 6 6 1
  let first := devmap v.outmask pn v.iomap ⟨0, 0⟩
  let (iomap, count) := (List.range' (pn + 1) (5 - pn)).foldl (fun (iomap, count) pn =>
    if v.portmask.getLsbD pn then devmap v.outmask pn iomap count else (iomap, count)) first
  ({ v with firstminor := pn * 8, iomap := iomap, numdevs := count.input + count.output }, count)

/-- The registration of the lines, with what is released after an error: the return value.
SOURCE: w83627dhg-generic.patch:947-988 -/
def registerLines (k : Kernel) (stack : ℕ → Resource) (count : DevCount) (rc : ℤ) (s : System) : ℤ × System :=
  let (rc, s) :=
    if rc = 0 then
      let (rc, major, call) := allocateNumbers k s.vars.major s.vars.firstminor s.vars.numdevs
      (rc, { s with vars := { s.vars with major := major }, log := s.log ++ [call] })
    else (rc, s)
  let (rc, s) :=
    if rc = 0 then
      let (rc, pdevout, pdevin, calls) :=
        setupPlatformDevs k DRVNAME 8 GPIO_MAX stack s.vars.iomap count s.vars.pdevin
      (rc, { s with vars := { s.vars with pdevout := pdevout, pdevin := pdevin }, log := s.log ++ calls })
    else (rc, s)
  if rc ≠ 0 then
    let released := if s.vars.gpioMapped then [.releaseRegion s.vars.gpioBase W83627DHG_GPIO_SIZE] else []
    (if rc ≠ -ENODEV then -1 else rc,
      { s with log := s.log ++ released ++ dropDevice s.vars.pdevin ++ dropDevice s.vars.pdevout })
  else (0, { s with log := s.log ++ [.cdevAdd s.vars.major s.vars.firstminor s.vars.numdevs] })

/-! ## The module -/

/-- `w83627dhg_gpio_init` with a chip that is found.
SOURCE: w83627dhg-generic.patch:892-990 -/
def setupFound (k : Kernel) (stack : ℕ → Resource) (s : System) : ℤ × System :=
  let s := { s with hw := enablePorts s.vars.toSettings s.vars.portmask s.hw }
  let (rc, s) := requestGpio k s
  let (vars, count) := mapLines s.vars
  let (rc, s) := registerLines k stack count rc { s with vars := vars }
  (rc, { s with hw := exitConfig s.vars.cirAddr s.hw })

/-- `w83627dhg_gpio_init`.
SOURCE: w83627dhg-generic.patch:865-991 -/
def gpioInit (k : Kernel) (stack : ℕ → Resource) (s : System) : ℤ × System :=
  let vars := { s.vars with portmask := s.vars.portmask &&& 0x7E#8 }
  if vars.portmask = 0 then (-EINVAL, { s with vars := vars })
  else
    match find s.hw with
    | (none, hw) => (-ENODEV, { s with vars := vars, hw := hw })
    | (some cirAddr, hw) => setupFound k stack { s with vars := { vars with cirAddr := cirAddr }, hw := hw }

/-- `w83627dhg_gpio_cleanup`.
SOURCE: w83627dhg-generic.patch:994-1005 -/
def gpioCleanup (s : System) : System :=
  let released := if s.vars.gpioMapped then [.releaseRegion s.vars.gpioBase W83627DHG_GPIO_SIZE] else []
  { s with log := s.log ++ [.cdevDel, .unregisterChrdevRegion s.vars.major s.vars.firstminor s.vars.numdevs] ++
      released ++ [.unregisterDevice s.vars.pdevin, .unregisterDevice s.vars.pdevout] }

/-- `w83627dhg_gpio_open`, with what `nonseekable_open` returns.
SOURCE: w83627dhg-generic.patch:734-753 -/
def gpioOpen (portmask : Byte) (nonseekable_open : ℤ) (minor : ℕ) : ℤ :=
  if ¬(1 < PORTNO minor ∨ PORTNO minor < 7) then -ENODEV
  else if portmask.toNat &&& (1 <<< PORT minor) ≠ 0 then nonseekable_open
  else -EINVAL

end TTLinux.Model.W83627dhg
