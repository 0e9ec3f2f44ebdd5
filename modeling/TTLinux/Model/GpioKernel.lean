import Mathlib.Data.Int.Notation
import TTLinux.Lib.SuperIo

/-!
# What the GPIO modules ask of the kernel

The modules for the W83627DHG and for the VT1211 (kernel/2.6.30/patches/w83627dhg-generic.patch and
vt1211-generic.patch) map their lines, count them and register them in the same way. `Kernel` holds
the answers of the kernel to one initialization; every call that is made is kept in a list.
-/

set_option autoImplicit false

namespace TTLinux.Model.GpioKernel

open TTLinux.Lib.SuperIo

/-- The text of a name. -/
abbrev Name := List Char

def ENODEV : ℤ := 19
def ENOMEM : ℤ := 12
def EINVAL : ℤ := 22
def ENOSYS : ℤ := 38

/-! ## Lines -/

/-- `enum gpio_dir`.
SOURCE: w83627dhg-generic.patch:170-174; vt1211-generic.patch:167-171 -/
inductive GpioDir where
  | input
  | nc
  | output
deriving DecidableEq

/-- `struct gpio_iomap`.
SOURCE: w83627dhg-generic.patch:182-185; vt1211-generic.patch:173-176 -/
structure GpioIomap where
  direction : GpioDir
  name : Name
deriving DecidableEq

/-- `struct devcount`.
SOURCE: w83627dhg-generic.patch:165-168; vt1211-generic.patch:162-165 -/
structure DevCount where
  input : ℕ
  output : ℕ
deriving DecidableEq

/-- What `snprintf` leaves in a name of 8 bytes. -/
def fitName (name : Name) : Name := name.take 7

/-- The name `gpio%o` of a line. -/
def gpioName (line : ℕ) : Name := fitName ("gpio".toList ++ Nat.toDigits 8 (8 + line))

/-- The loop of `devmap` over the lines of a port, from the highest one down, with `i` the number of
outputs that have one of the given names.
SOURCE: w83627dhg-generic.patch:777-801; vt1211-generic.patch:562-586 -/
def devmapLoop (lissnames : List Name) (outmask : Byte) (base : ℕ) :
    ℕ → ℕ → (ℕ → GpioIomap) → DevCount → (ℕ → GpioIomap) × DevCount
  | 0, _, iomap, count => (iomap, count)
  | bit + 1, i, iomap, count =>
    let line := base + bit
    if outmask.getLsbD bit then
      let count := { count with output := count.output + 1 }
      match lissnames[i]? with
      | some name =>
        devmapLoop lissnames outmask base bit (i + 1)
          (Function.update iomap line ⟨.output, fitName name⟩) count
      | none =>
        devmapLoop lissnames outmask base bit i (Function.update iomap line ⟨.output, gpioName line⟩) count
    else
      devmapLoop lissnames outmask base bit i (Function.update iomap line ⟨.input, gpioName line⟩)
        { count with input := count.input + 1 }

/-- The search for the first port that is enabled: the index where it ends.
SOURCE: w83627dhg-generic.patch:924-927; vt1211-generic.patch:727-730 -/
def firstPort (portmask : Byte) (limit : ℕ) : ℕ → ℕ → ℕ
  | 0, pn => pn
  | fuel + 1, pn =>
    if pn < limit ∧ portmask.getLsbD pn = false then firstPort portmask limit fuel (pn + 1) else pn

/-! ## Calls -/

/-- The fields of `struct resource` that are used. -/
structure Resource where
  name : Name
  start : ℕ
  stop : ℕ
  flags : ℕ
deriving DecidableEq

/-- A pointer to a platform device. -/
inductive Pdev where
  | null
  | err
  | device (name : Name)
deriving DecidableEq

/-- What the kernel answers. -/
structure Kernel where
  requestRegion : ℕ → ℕ → Bool
  registerChrdevRegion : ℤ → ℕ → ℕ → ℤ
  /-- The return value and the major number. -/
  allocChrdevRegion : ℕ → ℕ → ℤ × ℤ
  platformDeviceRegisterSimple : Name → List Resource → Bool

/-- A call of the kernel, with its answer. -/
inductive KernelCall where
  | requestRegion (base size : ℕ) (granted : Bool)
  | releaseRegion (base size : ℕ)
  | chrdevRegion (major : ℤ) (firstminor numdevs : ℕ) (rc : ℤ)
  | registerDevice (name : Name) (resources : List Resource) (registered : Bool)
  | putDevice (pdev : Pdev)
  | delDevice (pdev : Pdev)
  | cdevAdd (major : ℤ) (firstminor numdevs : ℕ)
  | cdevDel
  | unregisterChrdevRegion (major : ℤ) (firstminor numdevs : ℕ)
  | unregisterDevice (pdev : Pdev)
deriving DecidableEq

/-- The allocation of character device numbers: the return value, the major number and the call.
SOURCE: w83627dhg-generic.patch:947-956; vt1211-generic.patch:744-753 -/
def allocateNumbers (k : Kernel) (major : ℤ) (firstminor numdevs : ℕ) : ℤ × ℤ × KernelCall :=
  if major ≠ 0 then
    let rc := k.registerChrdevRegion major firstminor numdevs
    (rc, major, .chrdevRegion major firstminor numdevs rc)
  else
    let (rc, allocated) := k.allocChrdevRegion firstminor numdevs
    (rc, allocated, .chrdevRegion allocated firstminor numdevs rc)

/-- The arrays of `setup_platform_devs` while they are filled. -/
structure ResourceArrays where
  i : ℕ
  o : ℕ
  ires : ℕ → Resource
  ores : ℕ → Resource

/-- One line in the loop of `setup_platform_devs`. The end of an output is stored at the index of the
inputs.
SOURCE: w83627dhg-generic.patch:818-838; vt1211-generic.patch:598-617 -/
def fillResource (iomap : ℕ → GpioIomap) (a : ResourceArrays) (m : ℕ) : ResourceArrays :=
  match (iomap m).direction with
  | .nc => a
  | .input => { a with i := a.i + 1, ires := Function.update a.ires a.i ⟨(iomap m).name, m, m, 1⟩ }
  | .output =>
    let ores := Function.update a.ores a.i { a.ores a.i with stop := m }
    { a with
      o := a.o + 1
      ores := Function.update ores a.o { ores a.o with name := (iomap m).name, start := m, flags := 1 } }

/-- `setup_platform_devs` for the lines from `first` on: the return value, `pdevout`, `pdevin` and the
calls. The arrays are on the stack and hold what was there.
SOURCE: w83627dhg-generic.patch:805-862; vt1211-generic.patch:590-638 -/
def setupPlatformDevs (k : Kernel) (drvname : Name) (first lines : ℕ) (stack : ℕ → Resource)
    (iomap : ℕ → GpioIomap) (count : DevCount) (pdevin : Pdev) : ℤ × Pdev × Pdev × List KernelCall :=
  let a := (List.range' first lines).foldl (fillResource iomap) ⟨0, 0, stack, stack⟩
  let outname := drvname ++ "-out".toList
  let inname := drvname ++ "-in".toList
  let ores := (List.range count.output).map a.ores
  let ires := (List.range count.input).map a.ires
  if k.platformDeviceRegisterSimple outname ores = false then
    (-ENOMEM, .err, pdevin, [.registerDevice outname ores false])
  else if k.platformDeviceRegisterSimple inname ires = false then
    (-ENOMEM, .device outname, .err, [.registerDevice outname ores true, .registerDevice inname ires false])
  else
    (0, .device outname, .device inname, [.registerDevice outname ores true, .registerDevice inname ires true])

/-- The release of a platform device after an error.
SOURCE: w83627dhg-generic.patch:969-976; vt1211-generic.patch:764-771 -/
def dropDevice (pdev : Pdev) : List KernelCall := if pdev = .err then [] else [.putDevice pdev, .delDevice pdev]

end TTLinux.Model.GpioKernel
