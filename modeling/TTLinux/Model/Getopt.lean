import Mathlib.Data.Int.Notation
import TTLinux.Lib.Bytes

/-!
# Long options of dietlibc

The block of `getopt_long` and `getopt_long_only` that looks a long argument up in the option
table (toolchain/patches/dietlibc-0.30/dietlibc-getopt.patch). Strings are their bytes without
the terminator. `argv` and the address of an option's flag are a function and a number; what
the functions do before and after the block is not part of the patch.
-/

set_option autoImplicit false

namespace TTLinux.Model.Getopt

open TTLinux.Lib

/-- `struct option`. A null `flag` is `none`. -/
structure LongOption where
  name : Bytes
  hasArg : ℤ
  flag : Option ℕ
  val : ℤ
deriving DecidableEq

/-- `!strncmp(a, b, n)`. -/
def strncmpEq : ℕ → Bytes → Bytes → Bool
  | 0, _, _ => true
  | _ + 1, [], [] => true
  | _ + 1, [], _ :: _ => false
  | _ + 1, _ :: _, [] => false
  | n + 1, a :: as, b :: bs => if a = b then strncmpEq n as bs else false

/-- The pointer `match`: null, an entry of the table with its index, or `(struct option*)-1`. -/
inductive Match where
  | null
  | entry (i : ℕ) (o : LongOption)
  | ambiguous
deriving DecidableEq

/-- The loop over the table from entry `i` on.
SOURCE: dietlibc-getopt.patch:9-37, 79-107 -/
def scan (arg : Bytes) (tlen : ℕ) : ℕ → List LongOption → Match → Match
  | _, [], m => m
  | i, o :: longopts, m =>
    if strncmpEq tlen o.name arg then
      if o.name.length = tlen then .entry i o
      else
        match m with
        | .null => scan arg tlen (i + 1) longopts (.entry i o)
        | _ => scan arg tlen (i + 1) longopts .ambiguous
    else scan arg tlen (i + 1) longopts m

/-- The bytes from `arg` up to `max`: what stands before a `=`, or everything. -/
def text (arg : Bytes) : Bytes := arg.takeWhile (· ≠ 0x3D)

/-- What stands behind the `=`, if there is one: `max + 1`. -/
def behind (arg : Bytes) : Option Bytes :=
  if 0x3D ∈ arg then some ((arg.dropWhile (· ≠ 0x3D)).drop 1) else none

/-- `match != (struct option*)-1 && (o = match)`.
SOURCE: dietlibc-getopt.patch:38, 108 -/
def selected (longopts : List LongOption) (arg : Bytes) : Option (ℕ × LongOption) :=
  match scan arg (text arg).length 0 longopts .null with
  | .entry i o => some (i, o)
  | _ => none

/-- What a call is given. -/
structure Call where
  argv : ℕ → Option Bytes
  optstring : Bytes
  longopts : List LongOption
  /-- `longindex` is not null. -/
  longindex : Bool

/-- What a call reads and writes outside its own frame. -/
structure Globals where
  optind : ℕ
  optarg : Option Bytes
  /-- `*longindex`, once it is written. -/
  longindex : Option ℕ
  /-- The `int`s behind the flags, by address. -/
  flags : ℕ → ℤ
  stderr : Bytes

/-- How the block is left. -/
inductive Outcome where
  | returned (v : ℤ)
  /-- `goto shortopt` -/
  | shortopt
  /-- On to the message that names an invalid option. -/
  | invalid
deriving DecidableEq

/-- `*optstring == ':'`. -/
def Call.quiet (c : Call) : Bool := c.optstring.head? = some 0x3A

/-- The end of a successful lookup: the value goes to the flag or is returned.
SOURCE: dietlibc-getopt.patch:62-67, 132-137 -/
def finish (o : LongOption) (g : Globals) : Outcome × Globals :=
  let g := { g with optind := g.optind + 1 }
  match o.flag with
  | some a => (.returned 0, { g with flags := Function.update g.flags a o.val })
  | none => (.returned o.val, g)

/-- What is done with the entry that the loop has selected.
SOURCE: dietlibc-getopt.patch:39-67, 109-137 -/
def accept (c : Call) (arg : Bytes) (i : ℕ) (o : LongOption) (g : Globals) : Outcome × Globals :=
  let g := if c.longindex then { g with longindex := some i } else g
  if 0 < o.hasArg then
    match behind arg with
    | some a => finish o { g with optarg := some a }
    | none =>
      let g := { g with optarg := c.argv (g.optind + 1) }
      if g.optarg = none ∧ o.hasArg = 1 then
        if c.quiet then (.returned 0x3A, g)
        else
          (.returned 0x3F,
            { g with
              optind := g.optind + 1
              stderr := g.stderr ++ ascii "argument required: `".toList ++ text arg ++ ascii "'.\n".toList })
      else finish o { g with optind := g.optind + 1 }
  else finish o g

/-- The block for an argument, with what `reject` does when no entry is selected. -/
def lookup (c : Call) (arg : Bytes) (reject : Globals → Outcome) (g : Globals) : Outcome × Globals :=
  match selected c.longopts arg with
  | some (i, o) => accept c arg i o g
  | none => (reject g, g)

/-- `getopt_long`, whose argument stands behind the two dashes of `argv[optind]`.
SOURCE: dietlibc-getopt.patch:74-140 -/
def getoptLong (c : Call) (g : Globals) : Outcome × Globals :=
  lookup c (((c.argv g.optind).getD []).drop 2)
    (fun _ => if c.quiet then .returned 0x3A else .invalid) g

/-- `getopt_long_only` with the argument `arg`. An unknown argument with one dash is read as a
group of short options.
SOURCE: dietlibc-getopt.patch:5-70 -/
def getoptLongOnly (c : Call) (arg : Bytes) (g : Globals) : Outcome × Globals :=
  lookup c arg
    (fun g =>
      if ((c.argv g.optind).getD [])[1]? ≠ some 0x2D then .shortopt
      else if c.quiet then .returned 0x3A
      else .invalid) g

end TTLinux.Model.Getopt
