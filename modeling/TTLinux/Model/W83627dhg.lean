import Mathlib.Data.Int.Notation
import TTLinux.Lib.SuperIo

/-!
# The W83627DHG GPIO driver

The register access and the lines of the GPIO driver
(kernel/2.6.30/patches/w83627dhg-generic.patch). The functions run on a
`SuperIo.Machine`; `Driver` holds the module variables they read. What the driver
prints is left out, but not the register accesses made for printing: with `debug`
set they move the index register.
-/

set_option autoImplicit false

namespace TTLinux.Model.W83627dhg

open TTLinux.Lib.SuperIo

/-- The module variables that register access reads.
SOURCE: w83627dhg-generic.patch:114-124 -/
structure Driver where
  /-- The debugging level is not zero. -/
  debug : Bool
  /-- The address of the configuration index register. -/
  cirAddr : Byte

/-- `enum set_reg_mode`.
SOURCE: w83627dhg-generic.patch:176-180 -/
inductive SetRegMode where
  | set
  | and
  | or
  deriving DecidableEq

/-- `EINVAL`. -/
def EINVAL : ℤ := 22

/-- `W83627DHG_PORT`: the port index of a line.
SOURCE: w83627dhg-generic.patch:149 -/
def PORT (minor : ℕ) : ℕ := minor >>> 3

/-- `W83627DHG_PORTNO`: the port number of a line.
SOURCE: w83627dhg-generic.patch:152 -/
def PORTNO (minor : ℕ) : ℕ := PORT minor + 1

/-- `CDR_ADDR`: the data port that belongs to an index port.
SOURCE: w83627dhg-generic.patch:157 -/
def CDR_ADDR (cirAddr : Byte) : ℕ := cirAddr.toNat + 1

section

variable (drv : Driver)

/-- `setRegister`: the return value says, when debugging, whether the value stuck.
SOURCE: w83627dhg-generic.patch:237-283 -/
def setRegister (reg value : Byte) (mode : SetRegMode) (hw : Machine) : ℤ × Machine :=
  let hw := hw.outb reg drv.cirAddr.toNat
  let oldval := if mode ≠ .set ∨ drv.debug then hw.inb (CDR_ADDR drv.cirAddr) else 0xFF#8
  let value := match mode with
    | .set => value
    | .and => value &&& oldval
    | .or => value ||| oldval
  let hw := hw.outb value (CDR_ADDR drv.cirAddr)
  let rc := if drv.debug ∧ hw.inb (CDR_ADDR drv.cirAddr) = value then 1 else 0
  (rc, hw)

/-- `getRegister`.
SOURCE: w83627dhg-generic.patch:286-292 -/
def getRegister (reg : Byte) (hw : Machine) : Byte × Machine :=
  let hw := hw.outb reg drv.cirAddr.toNat
  (hw.inb (CDR_ADDR drv.cirAddr), hw)

/-- `w83627dhg_enterConfig`.
SOURCE: w83627dhg-generic.patch:295-299 -/
def enterConfig (cirAddress : Byte) (hw : Machine) : Machine :=
  (hw.outb 0x87#8 cirAddress.toNat).outb 0x87#8 cirAddress.toNat

/-- `w83627dhg_exitConfig`.
SOURCE: w83627dhg-generic.patch:302-305 -/
def exitConfig (cirAddress : Byte) (hw : Machine) : Machine :=
  hw.outb 0xAA#8 cirAddress.toNat

/-- `w83627dhg_cfg_offset`: the first of the three registers of a port.
SOURCE: w83627dhg-generic.patch:308-330 -/
def cfgOffset (port : ℕ) : Byte :=
  match port with
  | 2 => 0xE3#8
  | 3 => 0xF0#8
  | 4 => 0xF4#8
  | 5 => 0xE0#8
  | 6 => 0xF4#8
  | _ => 0x0#8

/-- `w83627dhg_portaddr`: the data register of a line, or zero for a line that does
not exist.
SOURCE: w83627dhg-generic.patch:333-352 -/
def portaddr (minor : ℕ) : Byte :=
  match PORT minor with
  | 1 | 2 | 3 | 4 | 5 => cfgOffset (PORTNO minor) + 0x1#8
  | _ => 0x0#8

/-- `w83627dhg_select_ldn_gpio`.
SOURCE: w83627dhg-generic.patch:355-380 -/
def selectLdnGpio (port : ℕ) (hw : Machine) : ℤ × Machine :=
  match port with
  | 2 | 3 | 4 | 5 => (0, (setRegister drv 0x7#8 0x9#8 .set hw).2)
  | 6 => (0, (setRegister drv 0x7#8 0x7#8 .set hw).2)
  | _ => (-1, hw)

/-- The pin selection of `w83627dhg_enable_gpio` for the ports 2 to 5.
SOURCE: w83627dhg-generic.patch:415-437 -/
def pinSelect (port : ℕ) (hw : Machine) : Machine :=
  match port with
  | 3 =>
    let hw := (setRegister drv 0x2A#8 0xFD#8 .and hw).2
    let hw := (setRegister drv 0x2C#8 0x1F#8 .and hw).2
    (setRegister drv 0xFE#8 0x07#8 .set hw).2
  | 5 => (setRegister drv 0x2D#8 0xFF#8 .set hw).2
  | _ => hw

/-- `w83627dhg_enable_gpio`.
SOURCE: w83627dhg-generic.patch:404-454 -/
def enableGpio (port : ℕ) (pinSel : Bool) (hw : Machine) : Machine :=
  let (byte, hw) := getRegister drv 0x30#8 hw
  match port with
  | 2 | 3 | 4 | 5 =>
    let byte := byte ||| (0x1#8 <<< (port - 2))
    let hw := if pinSel then pinSelect drv port hw else hw
    (setRegister drv 0x30#8 byte .set hw).2
  | 6 => (setRegister drv 0x30#8 (byte ||| 0x8#8) .set hw).2
  | _ => hw

/-- The registers that `w83627dhg_gpio_set` reads for its debugging output.
SOURCE: w83627dhg-generic.patch:580-586 -/
def showMasks (base : Byte) (hw : Machine) : Machine :=
  if drv.debug then
    (getRegister drv (base + 0x1#8) (getRegister drv (base - 0x1#8) hw).2).2
  else hw

/-- `w83627dhg_gpio_set`: set a line to a state.
SOURCE: w83627dhg-generic.patch:564-615 -/
def gpioSet (minor state : Byte) (hw : Machine) : ℤ × Machine :=
  let base := portaddr minor.toNat
  if base = 0 then (-EINVAL, hw)
  else
    let hw := enterConfig drv.cirAddr hw
    let (rc, hw) := selectLdnGpio drv (PORTNO minor.toNat) hw
    let hw := enableGpio drv (PORTNO minor.toNat) false hw
    let hw := showMasks drv base hw
    if rc ≠ 0 then (rc, exitConfig drv.cirAddr hw)
    else
      let mask := 0x1#8 <<< (minor &&& 0x7#8)
      let hw :=
        if state ≠ 0 then (setRegister drv base mask .or hw).2
        else (setRegister drv base (~~~mask) .and hw).2
      (rc, exitConfig drv.cirAddr hw)

/-- `selCtlReg`.
SOURCE: w83627dhg-generic.patch:197-201 -/
def selCtlReg (reg : Byte) (hw : Machine) : Machine := hw.outb reg drv.cirAddr.toNat

/-- `writeCtlReg`: the return value says, when debugging, whether the value stuck.
SOURCE: w83627dhg-generic.patch:204-228 -/
def writeCtlReg (value : Byte) (hw : Machine) : ℤ × Machine :=
  let hw := hw.outb value (CDR_ADDR drv.cirAddr)
  let rc := if drv.debug ∧ hw.inb (CDR_ADDR drv.cirAddr) = value then 1 else 0
  (rc, hw)

end

/-- The module parameters that say how the lines are used. An array is a function of the index. The source's
arrays have six elements each: `W83627dhgArrays` has every access on record, and a run counts only as long
as its accesses are in bounds.
SOURCE: w83627dhg-generic.patch:109-112, 134-141 -/
structure Settings extends Driver where
  paranoid : Bool
  outmask : ℕ → Byte
  polarity : ℕ → Byte

/-- `OUTPUT_MASK`.
SOURCE: w83627dhg-generic.patch:162 -/
def OUTPUT_MASK (cfg : Settings) (portindex : ℕ) : Byte := ~~~cfg.outmask portindex

/-- A register of `setup_gpio`: written, or with `check` written only if it does not hold what is
expected.
SOURCE: w83627dhg-generic.patch:474-486, 496-508 -/
def setupRegister (cfg : Settings) (reg expected value : Byte) (check : Bool) (hw : Machine) : Machine :=
  let hw := selCtlReg cfg.toDriver reg hw
  if check ∧ hw.inb (CDR_ADDR cfg.cirAddr) = expected then hw else (writeCtlReg cfg.toDriver value hw).2

/-- `setup_gpio`: the polarity and the direction of the lines of a port.
SOURCE: w83627dhg-generic.patch:461-516 -/
def setupGpio (cfg : Settings) (port : ℕ) (check : Bool) (hw : Machine) : Machine :=
  let portidx := port - 1
  let offset := cfgOffset port
  let hw := setupRegister cfg (offset + 0x2#8) (cfg.polarity portidx) (cfg.polarity portidx) check hw
  setupRegister cfg (offset + 0x0#8) (cfg.outmask portidx) (OUTPUT_MASK cfg portidx) check hw

/-- `w83627dhg_gpio_get`: the return value, the state that is stored, and the static `lastbyte`.
SOURCE: w83627dhg-generic.patch:621-683 -/
def gpioGet (cfg : Settings) (minor lastbyte : Byte) (hw : Machine) : ℤ × Option Byte × Byte × Machine :=
  let base := portaddr minor.toNat
  let mask := 0x1#8 <<< (minor &&& 0x7#8)
  if base = 0 then (-EINVAL, none, lastbyte, hw)
  else
    let hw := enterConfig cfg.cirAddr hw
    let (rc, hw) := selectLdnGpio cfg.toDriver (PORTNO minor.toNat) hw
    let hw := enableGpio cfg.toDriver (PORTNO minor.toNat) false hw
    let hw := showMasks cfg.toDriver base hw
    let hw :=
      if cfg.paranoid ∧ cfg.outmask (PORT minor.toNat) &&& mask = 0 then
        setupGpio cfg (PORTNO minor.toNat) true hw
      else hw
    if rc ≠ 0 then (rc, none, lastbyte, exitConfig cfg.cirAddr hw)
    else
      let hw := selCtlReg cfg.toDriver base hw
      let inbyte := hw.inb (CDR_ADDR cfg.cirAddr)
      let hw := exitConfig cfg.cirAddr hw
      if inbyte = 0xFF#8 then (0, some (if lastbyte &&& mask ≠ 0 then 1 else 0), lastbyte, hw)
      else (0, some (if inbyte &&& mask ≠ 0 then 1 else 0), inbyte, hw)

end TTLinux.Model.W83627dhg
