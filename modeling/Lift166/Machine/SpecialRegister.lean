/-!
# Special function registers

Memory-mapped words with a name. Two of them are fixed by the hardware: `ZEROS` always reads as zero and `ONES`
always reads as all ones, and writing them has no effect.
-/

namespace Lift166

/-- A special function register with a name. -/
inductive SpecialRegister
  | dpp0 | dpp1 | dpp2 | dpp3 | csp | mdh | mdl | cp | sp | stkov | stkun | mdc | psw | zeros | ones
deriving DecidableEq

namespace SpecialRegister

/-- Every named register, by ascending address. -/
def all : List SpecialRegister :=
  [dpp0, dpp1, dpp2, dpp3, csp, mdh, mdl, cp, sp, stkov, stkun, mdc, psw, zeros, ones]

/-- The address of a register's word. -/
def address : SpecialRegister → Nat
  | dpp0 => 0xFE00 | dpp1 => 0xFE02 | dpp2 => 0xFE04 | dpp3 => 0xFE06 | csp => 0xFE08
  | mdh => 0xFE0C | mdl => 0xFE0E | cp => 0xFE10 | sp => 0xFE12 | stkov => 0xFE14 | stkun => 0xFE16
  | mdc => 0xFF0E | psw => 0xFF10 | zeros => 0xFF1C | ones => 0xFF1E

/-- The name a listing shows. -/
def name : SpecialRegister → String
  | dpp0 => "DPP0" | dpp1 => "DPP1" | dpp2 => "DPP2" | dpp3 => "DPP3" | csp => "CSP"
  | mdh => "MDH" | mdl => "MDL" | cp => "CP" | sp => "SP" | stkov => "STKOV" | stkun => "STKUN"
  | mdc => "MDC" | psw => "PSW" | zeros => "ZEROS" | ones => "ONES"

/-- The value that the hardware fixes, if it does. -/
def constant? : SpecialRegister → Option Nat
  | zeros => some 0
  | ones => some 0xFFFF
  | _ => none

/-- The register whose word is at an address. -/
def ofAddress? (addr : Int) : Option SpecialRegister :=
  all.find? fun r => (r.address : Int) == addr

end SpecialRegister

/-- The name of the special function register at an address, if there is one. -/
def specialName? (addr : Int) : Option String :=
  (SpecialRegister.ofAddress? addr).map SpecialRegister.name

/-- The fixed value of the word at an address, if the hardware fixes it. -/
def fixedWord? (addr : Int) : Option Nat :=
  (SpecialRegister.ofAddress? addr).bind SpecialRegister.constant?

end Lift166
