import TTLinux.Lib.Bytes
import Mathlib.Logic.Function.Basic

/-!
# The names of the locale

`setlocale` of dietlibc with full gettext (toolchain/patches/dietlibc-0.32/dietlibc-gettext.patch): a name for each of
thirteen categories, and the encoding that the functions for wide characters go by. `strdup` is a parameter. The numbers
of the categories are those of `locale.h`, of which only their range and that `LC_CTYPE` is not `LC_ALL` is used. A locale
is given by its bytes: it is not one of the copies in `locale_names`, which are freed before they are replaced.
-/

set_option autoImplicit false

namespace TTLinux.Model.Locale

open TTLinux.Lib

variable {W : Type}

/-- The last category. -/
def LC_IDENTIFICATION : ℕ := 12

/-- The numbers of two categories. -/
structure Categories where
  LC_CTYPE : ℕ
  LC_ALL : ℕ
  ctype_le : LC_CTYPE ≤ LC_IDENTIFICATION
  all_le : LC_ALL ≤ LC_IDENTIFICATION
  ctype_ne_all : LC_CTYPE ≠ LC_ALL

/-- The encodings. -/
inductive Encoding where
  | CT_8BIT
  | CT_UTF8
  deriving DecidableEq

/-- `locale_names` and `lc_ctype`. -/
structure State where
  localeNames : ℕ → Option Bytes
  lcCtype : Encoding

/-- Before the first call. -/
def State.initial : State := ⟨fun _ => none, .CT_8BIT⟩

/-- What `getenv` answers. -/
structure Environment where
  LC_ALL : Option Bytes
  LANG : Option Bytes

/-- A call of `setlocale`; no locale is `NULL`. -/
structure Call where
  category : BitVec 32
  locale : Option Bytes
  environment : Environment

def C : Bytes := ascii ['C']

/-- `strstr(s, word)` is not `NULL`. -/
def strstr (s word : Bytes) : Bool := decide (word <:+: s)

/-- The locale that an empty one stands for.
SOURCE: dietlibc-gettext.patch:452-458 -/
def defaultLocale (env : Environment) : Bytes := env.LC_ALL.getD (env.LANG.getD C)

/-- The locale that is set.
SOURCE: dietlibc-gettext.patch:450-458 -/
def chosen (env : Environment) (locale : Bytes) : Bytes := if locale = [] then defaultLocale env else locale

/-- SOURCE: dietlibc-gettext.patch:468 -/
def utf8 (x : Bytes) : Bool :=
  strstr x (ascii ['.', 'U', 'T', 'F', '-', '8']) || strstr x (ascii ['.', 'U', 'T', 'F', '8'])

/-- SOURCE: dietlibc-gettext.patch:470 -/
def State.name (st : State) (category : ℕ) : Bytes := (st.localeNames category).getD C

/-- SOURCE: dietlibc-gettext.patch:438-443 -/
def _setlocale (strdup : Bytes → W → Option Bytes × W) (category : ℕ) (locale : Bytes) (st : State) (w : W) :
    Option Bytes × State × W :=
  let (copy, w) := strdup locale w
  (copy, { st with localeNames := Function.update st.localeNames category copy }, w)

/-- The loop over the categories; false is that a copy fails.
SOURCE: dietlibc-gettext.patch:461-464 -/
def setAll (strdup : Bytes → W → Option Bytes × W) (x : Bytes) : List ℕ → State → W → Bool × State × W
  | [], st, w => (true, st, w)
  | cat :: cats, st, w =>
    match _setlocale strdup cat x st w with
    | (none, st, w) => (false, st, w)
    | (some _, st, w) => setAll strdup x cats st w

/-- The names that a call sets.
SOURCE: dietlibc-gettext.patch:460-466 -/
def setNames (cats : Categories) (strdup : Bytes → W → Option Bytes × W) (category : ℕ) (x : Bytes) (st : State) (w : W) :
    Bool × State × W :=
  if category = cats.LC_ALL then setAll strdup x (List.range (LC_IDENTIFICATION + 1)) st w
  else
    let (copy, st, w) := _setlocale strdup category x st w
    (copy.isSome, st, w)

/-- SOURCE: dietlibc-gettext.patch:445-472 -/
def setlocale (cats : Categories) (strdup : Bytes → W → Option Bytes × W) (call : Call) (st : State) (w : W) :
    Option Bytes × State × W :=
  let category := call.category.toNat
  if LC_IDENTIFICATION < category then (none, st, w)
  else
    match call.locale with
    | none => (some (st.name category), st, w)
    | some locale =>
      let x := chosen call.environment locale
      match setNames cats strdup category x st w with
      | (false, st, w) => (none, st, w)
      | (true, st, w) =>
        let st := if utf8 x then { st with lcCtype := .CT_UTF8 } else st
        (some (st.name category), st, w)

/-- A sequence of calls. -/
def run (cats : Categories) (strdup : Bytes → W → Option Bytes × W) (calls : List Call) (st : State) (w : W) : State × W :=
  calls.foldl (fun (st, w) call => (setlocale cats strdup call st w).2) (st, w)

end TTLinux.Model.Locale
