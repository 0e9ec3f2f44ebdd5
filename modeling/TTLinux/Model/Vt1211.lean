import TTLinux.Model.GpioKernel

/-!
# The VT1211 GPIO driver

The initialization of the GPIO driver for the VT1211 and the opening of its lines
(kernel/2.6.30/patches/vt1211-generic.patch). The driver reaches the chip and its lines through I/O
ports; `PortIo` says what a board does with a write to a port and what a read returns.
-/

set_option autoImplicit false

namespace TTLinux.Model.Vt1211

open TTLinux.Lib.SuperIo (Byte)
open TTLinux.Model.GpioKernel

/-- `DRVNAME`, `GPIO_MAX`, `VT1211_GPIO_SIZE` and `VT1211_WKUP_SIZE`.
SOURCE: vt1211-generic.patch:86, 91, 97, 100 -/
def DRVNAME : Name := "vt1211-gpio".toList
def GPIO_MAX : ℕ := 56
def VT1211_GPIO_SIZE : ℕ := 5
def VT1211_WKUP_SIZE : ℕ := 2

/-- The I/O ports of a board. -/
structure PortIo (M : Type) where
  outb : M → Byte → ℕ → M
  inb : M → ℕ → Byte

/-- The module variables.
SOURCE: vt1211-generic.patch:117-143, 178-185 -/
structure Vars where
  major : ℤ
  cirAddr : Byte
  gpioBase : ℕ
  wkupBase : ℕ
  portmask : Byte
  outmask : ℕ → Byte
  polarity : ℕ → Byte
  iomap : ℕ → GpioIomap
  pdevin : Pdev
  pdevout : Pdev
  firstminor : ℕ
  numdevs : ℕ
  gpioMapped : Bool
  wkupMapped : Bool

/-- The module, the board and the calls of the kernel that were made. -/
structure System (M : Type) where
  vars : Vars
  hw : M
  log : List KernelCall

/-- `VT1211_PORT`: the port index of a line.
SOURCE: vt1211-generic.patch:151 -/
def PORT (minor : ℕ) : ℕ := minor >>> 3

/-- `VT1211_PORTNO`: the port number of a line.
SOURCE: vt1211-generic.patch:154 -/
def PORTNO (minor : ℕ) : ℕ := PORT minor + 1

/-- `CDR_ADDR`: the data port that belongs to an index port.
SOURCE: vt1211-generic.patch:159 -/
def CDR_ADDR (cirAddr : Byte) : ℕ := cirAddr.toNat + 1

/-! ## The chip -/

section

variable {M : Type} (io : PortIo M)

/-- A write of a configuration register through the index and the data port. -/
def writeRegister (reg value : Byte) (cirAddr : Byte) (hw : M) : M :=
  io.outb (io.outb hw reg cirAddr.toNat) value (CDR_ADDR cirAddr)

/-- A read of a configuration register through the index and the data port. -/
def readRegister (reg : Byte) (cirAddr : Byte) (hw : M) : Byte × M :=
  let hw := io.outb hw reg cirAddr.toNat
  (io.inb hw (CDR_ADDR cirAddr), hw)

/-- `vt1211_enterConfig`.
SOURCE: vt1211-generic.patch:188-192 -/
def enterConfig (cirAddr : Byte) (hw : M) : M :=
  io.outb (io.outb hw 0x87#8 cirAddr.toNat) 0x87#8 cirAddr.toNat

/-- `vt1211_exitConfig`.
SOURCE: vt1211-generic.patch:195-198 -/
def exitConfig (cirAddr : Byte) (hw : M) : M := io.outb hw 0xAA#8 cirAddr.toNat

/-- `vt1211_select_ldn_gpio`.
SOURCE: vt1211-generic.patch:201-205 -/
def selectLdnGpio (cirAddr : Byte) (hw : M) : M := writeRegister io 0x7#8 0x8#8 cirAddr hw

/-- `vt1211_select_ldn_wkup`.
SOURCE: vt1211-generic.patch:208-212 -/
def selectLdnWkup (cirAddr : Byte) (hw : M) : M := writeRegister io 0x7#8 0xA#8 cirAddr hw

/-- `vt1211_gpiobase`.
SOURCE: vt1211-generic.patch:215-226 -/
def gpiobase (cirAddr : Byte) (hw : M) : ℕ × M :=
  let (high, hw) := readRegister io 0x60#8 cirAddr hw
  let (low, hw) := readRegister io 0x61#8 cirAddr hw
  (high.toNat <<< 8 + low.toNat, hw)

/-- `vt1211_enable_gpio`.
SOURCE: vt1211-generic.patch:229-243 -/
def enableGpio (cirAddr : Byte) (hw : M) : M :=
  let (byte, hw) := readRegister io 0x30#8 cirAddr hw
  writeRegister io 0x30#8 (byte ||| 0x1#8) cirAddr hw

/-- `setup_gpio`: the port, the polarity and the direction of the lines, from port 7 to port 1.
SOURCE: vt1211-generic.patch:250-284 -/
def setupGpio (v : Vars) (hw : M) : M :=
  [6, 5, 4, 3, 2, 1, 0].foldl (fun hw pn =>
    if pn ≠ 1 ∧ pn ≠ 6 ∧ v.portmask.getLsbD pn then
      let (byte, hw) := readRegister io 0xF0#8 v.cirAddr hw
      let byte := (byte &&& 0xF8#8) ||| (if pn ≠ 0 then BitVec.ofNat 8 (pn - 1) else 0)
      let hw := writeRegister io 0xF0#8 byte v.cirAddr hw
      let hw := writeRegister io 0xF2#8 (v.polarity pn) v.cirAddr hw
      writeRegister io 0xF1#8 (v.outmask pn) v.cirAddr hw
    else hw) hw

/-- `setup_wkup`.
SOURCE: vt1211-generic.patch:287-304 -/
def setupWkup (v : Vars) (wkupBase : ℕ) (hw : M) : M :=
  let hw :=
    if v.portmask &&& 0x02#8 ≠ 0 then
      io.outb (io.outb hw (v.outmask 1) (wkupBase + 0x20)) (v.polarity 1) (wkupBase + 0x21)
    else hw
  if v.portmask &&& 0x40#8 ≠ 0 then
    io.outb (io.outb hw (v.outmask 6) (wkupBase + 0x22)) (v.polarity 6) (wkupBase + 0x23)
  else hw

/-- `vt1211_disable_rom`. The value for register 25h is written to the index port.
SOURCE: vt1211-generic.patch:307-326 -/
def disableRom (cirAddr : Byte) (hw : M) : M :=
  let (byte, hw) := readRegister io 0x25#8 cirAddr hw
  let hw := io.outb hw 0x25#8 cirAddr.toNat
  let hw := io.outb hw (byte ||| 0x20#8) cirAddr.toNat
  let hw := writeRegister io 0x07#8 0x0D#8 cirAddr hw
  let (byte, hw) := readRegister io 0x30#8 cirAddr hw
  writeRegister io 0x30#8 (byte &&& 0xFE#8) cirAddr hw

/-- `vt1211_test`.
SOURCE: vt1211-generic.patch:328-337 -/
def test (cirAddr : Byte) (hw : M) : Bool × M :=
  let (dev_id, hw) := readRegister io 0x20#8 cirAddr (enterConfig io cirAddr hw)
  (dev_id = 0x3C#8, hw)

/-- `vt1211_find`: the return value, and the address of the chip if it is found.
SOURCE: vt1211-generic.patch:340-360 -/
def find (cirAddr : Byte) (hw : M) : ℤ × Byte × M :=
  let (found, hw) := test io 0x2E#8 hw
  if found then (0, 0x2E#8, hw)
  else
    let (found, hw) := test io 0x4E#8 hw
    if found then (0, 0x4E#8, hw) else (-ENODEV, cirAddr, hw)

end

/-! ## The lines -/

/-- The names of the first outputs.
SOURCE: vt1211-generic.patch:547 -/
def lissnames : List Name :=
  ["unlock".toList, "lock".toList, "masterr".toList, "masterg".toList, "state".toList, "ready".toList]

/-- `vt1211_devmap`: port 6 has three lines.
SOURCE: vt1211-generic.patch:543-587 -/
def devmap (outmask : ℕ → Byte) (pn : ℕ) (iomap : ℕ → GpioIomap) (count : DevCount) :
    (ℕ → GpioIomap) × DevCount :=
  devmapLoop lissnames (outmask pn) (pn * 8) (if pn = 5 then 3 else 8) 0 iomap count

/-- The device numbers and the map of the lines.
SOURCE: vt1211-generic.patch:726-742 -/
def mapLines (v : Vars) : Vars × DevCount :=
  let pn := firstPort v.portmask 7 7 0
  let first := devmap v.outmask pn v.iomap ⟨0, 0⟩
  let (iomap, count) := (List.range' (pn + 1) (7 - pn)).foldl (fun (iomap, count) pn =>
    if v.portmask.getLsbD pn then devmap v.outmask pn iomap count else (iomap, count)) first
  ({ v with firstminor := pn * 8, iomap := iomap, numdevs := count.input + count.output }, count)

/-! ## The module -/

section

variable {M : Type}

/-- The registration of the lines, with what is released after an error: the return value.
SOURCE: vt1211-generic.patch:744-783 -/
def registerLines (k : Kernel) (stack : ℕ → Resource) (count : DevCount) (rc : ℤ) (s : System M) : ℤ × System M :=
  let (rc, s) :=
    if rc = 0 then
      let (rc, major, call) := allocateNumbers k s.vars.major s.vars.firstminor s.vars.numdevs
      (rc, { s with vars := { s.vars with major := major }, log := s.log ++ [call] })
    else (rc, s)
  let (rc, s) :=
    if rc = 0 then
      let (rc, pdevout, pdevin, calls) :=
        setupPlatformDevs k DRVNAME 0 GPIO_MAX stack s.vars.iomap count s.vars.pdevin
      (rc, { s with vars := { s.vars with pdevout := pdevout, pdevin := pdevin }, log := s.log ++ calls })
    else (rc, s)
  if rc ≠ 0 then
    let gpio := if s.vars.gpioMapped then [.releaseRegion s.vars.gpioBase VT1211_GPIO_SIZE] else []
    let wkup := if s.vars.wkupMapped then [.releaseRegion s.vars.wkupBase VT1211_WKUP_SIZE] else []
    (if rc ≠ -ENODEV then -1 else rc,
      { s with log := s.log ++ gpio ++ wkup ++ dropDevice s.vars.pdevin ++ dropDevice s.vars.pdevout })
  else (0, { s with log := s.log ++ [.cdevAdd s.vars.major s.vars.firstminor s.vars.numdevs] })

variable (io : PortIo M)

/-- The request for the I/O region of the lines: the return value.
SOURCE: vt1211-generic.patch:688-704 -/
def requestGpio (k : Kernel) (rc : ℤ) (s : System M) : ℤ × System M :=
  if s.vars.portmask &&& 0x3D#8 = 0 then (rc, s)
  else
    let (base, hw) :=
      if s.vars.gpioBase = 0 then gpiobase io s.vars.cirAddr s.hw else (s.vars.gpioBase, s.hw)
    let granted := k.requestRegion base VT1211_GPIO_SIZE
    let s := { s with
      vars := { s.vars with gpioBase := base }
      hw := hw
      log := s.log ++ [.requestRegion base VT1211_GPIO_SIZE granted] }
    if granted then
      (rc, { s with vars := { s.vars with gpioMapped := true }, hw := setupGpio io s.vars s.hw })
    else (-ENODEV, s)

/-- The request for the I/O region of the wakeup events: whether the initialization goes on.
SOURCE: vt1211-generic.patch:706-723 -/
def requestWkup (k : Kernel) (s : System M) : Bool × System M :=
  if s.vars.portmask &&& 0x42#8 = 0 then (true, s)
  else
    let s := { s with hw := selectLdnWkup io s.vars.cirAddr s.hw }
    let (base, hw) :=
      if s.vars.wkupBase = 0 then gpiobase io s.vars.cirAddr s.hw else (s.vars.wkupBase, s.hw)
    let granted := k.requestRegion base VT1211_WKUP_SIZE
    let s := { s with
      vars := { s.vars with wkupBase := base }
      hw := hw
      log := s.log ++ [.requestRegion base VT1211_WKUP_SIZE granted] }
    if granted then
      (true, { s with vars := { s.vars with wkupMapped := true }, hw := setupWkup io s.vars base s.hw })
    else (false, s)

/-- `vt1211_gpio_init` behind its checks. A chip that is not found does not stop it.
SOURCE: vt1211-generic.patch:672-786 -/
def setupChip (k : Kernel) (stack : ℕ → Resource) (s : System M) : ℤ × System M :=
  let (rc, cirAddr, hw) := find io s.vars.cirAddr s.hw
  let hw := if s.vars.portmask &&& 0x3E#8 ≠ 0 then disableRom io cirAddr hw else hw
  let hw := enableGpio io cirAddr (selectLdnGpio io cirAddr hw)
  let (rc, s) := requestGpio io k rc { s with vars := { s.vars with cirAddr := cirAddr }, hw := hw }
  match requestWkup io k s with
  | (false, s) => (-ENODEV, s)
  | (true, s) =>
    let (vars, count) := mapLines s.vars
    let (rc, s) := registerLines k stack count rc { s with vars := vars }
    (rc, { s with hw := exitConfig io s.vars.cirAddr s.hw })

/-- `vt1211_gpio_init`.
SOURCE: vt1211-generic.patch:641-787 -/
def gpioInit (k : Kernel) (stack : ℕ → Resource) (s : System M) : ℤ × System M :=
  let vars := { s.vars with portmask := s.vars.portmask &&& 0x7F#8 }
  if vars.portmask &&& 0x42#8 ≠ 0 then (-ENOSYS, { s with vars := vars })
  else if vars.portmask = 0 then (-EINVAL, { s with vars := vars })
  else
    let outmask :=
      if vars.outmask 5 &&& 0xF4#8 ≠ 0 then Function.update vars.outmask 5 (vars.outmask 5 &&& 0x7#8)
      else vars.outmask
    setupChip io k stack { s with vars := { vars with outmask := outmask } }

end

/-- `vt1211_gpio_cleanup`.
SOURCE: vt1211-generic.patch:789-803 -/
def gpioCleanup {M : Type} (s : System M) : System M :=
  let gpio := if s.vars.gpioMapped then [.releaseRegion s.vars.gpioBase VT1211_GPIO_SIZE] else []
  let wkup := if s.vars.wkupMapped then [.releaseRegion s.vars.wkupBase VT1211_WKUP_SIZE] else []
  { s with log := s.log ++ [.cdevDel, .unregisterChrdevRegion s.vars.major s.vars.firstminor s.vars.numdevs] ++
      gpio ++ wkup ++ [.unregisterDevice s.vars.pdevin, .unregisterDevice s.vars.pdevout] }

/-- `vt1211_gpio_open`, with what `nonseekable_open` returns.
SOURCE: vt1211-generic.patch:507-532 -/
def gpioOpen (portmask : Byte) (nonseekable_open : ℤ) (minor : ℕ) : ℤ :=
  if PORTNO minor = 2 ∨ PORTNO minor = 7 then -ENOSYS
  else if PORTNO minor = 6 ∧ 2 < minor &&& 0x7 then -ENODEV
  else if portmask.toNat &&& (1 <<< PORT minor) ≠ 0 then nonseekable_open
  else -EINVAL

end TTLinux.Model.Vt1211
