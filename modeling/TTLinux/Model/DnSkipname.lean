import Mathlib.Data.Int.Notation
import TTLinux.Lib.Memory
import TTLinux.Lib.Rounds

/-!
# Skipping a domain name

`dn_skipname` of dietlibc (toolchain/patches/dietlibc-0.32/dietlibc-0.28-dn_skipname.patch). The message lies in a
memory that goes on behind its end, so that a read behind the end gives a byte as well; every address that is read is
noted.
-/

set_option autoImplicit false

namespace TTLinux.Model.DnSkipname

open TTLinux.Lib
open TTLinux.Lib.Memory (Mem)

/-- The state at the head of the loop. -/
structure State where
  cp : ℕ
  /-- The addresses that were read. -/
  reads : List ℕ
deriving DecidableEq

/-- What is returned, and what was read for it. -/
structure Result where
  value : ℤ
  reads : List ℕ
deriving DecidableEq

/-- `out:`
SOURCE: dietlibc-0.28-dn_skipname.patch:25-32 -/
def out (comp_dn eom cp : ℕ) : ℤ := if eom < cp then -1 else (cp : ℤ) - comp_dn

/-- One round of the loop. The case of a label falls through to that of a pointer.
SOURCE: dietlibc-0.28-dn_skipname.patch:11-24 -/
def turn (m : Mem) (comp_dn eom : ℕ) (s : State) : Result ⊕ State :=
  if s.cp < eom then
    let n := (m s.cp).toNat
    let reads := s.reads ++ [s.cp]
    if n ≠ 0 then
      let cp := s.cp + 1
      if n &&& 0xC0 = 0 then
        let cp := cp + n
        let reads := reads ++ [cp]
        if m cp ≠ 0 then .inr ⟨cp, reads⟩
        else .inl ⟨out comp_dn eom (cp + 1), reads⟩
      else if n &&& 0xC0 = 0xC0 then .inl ⟨out comp_dn eom (cp + 1), reads⟩
      else .inl ⟨-1, reads⟩
    else .inl ⟨out comp_dn eom s.cp, reads⟩
  else .inl ⟨out comp_dn eom s.cp, s.reads⟩

/-- `dn_skipname`. A round that goes on has moved `cp` forward, so that there are not more rounds than bytes.
SOURCE: dietlibc-0.28-dn_skipname.patch:7-32 -/
def dnSkipname (m : Mem) (comp_dn eom : ℕ) : Option Result :=
  Rounds.run (turn m comp_dn eom) (eom - comp_dn + 1) ⟨comp_dn, []⟩

end TTLinux.Model.DnSkipname
