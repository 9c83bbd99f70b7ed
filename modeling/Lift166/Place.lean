import Lift166.Machine.Register
import Lift166.Machine.SpecialRegister
import Lift166.Override.Store

/-!
# Where operands are

Short register addresses, bit offsets and memory operands are turned into registers and addresses here. What they
mean depends on the override in force at the instruction, and on nothing else in the store but the default data
page pointers.
-/

namespace Lift166

/-- What a short address or a bit offset stands for. -/
inductive Place
  /-- A general purpose register. -/
  | gpr (register : Register)
  /-- A memory-mapped word: a special function register, an extended one, or bit-addressable memory. -/
  | sfr (address : Int)
deriving DecidableEq

/-- Short addresses and bit offsets above this one stand for general purpose registers. -/
def lastSpecialCode : Int := 0xEF

/-- Bit offsets up to this one stand for bit-addressable memory. -/
def lastBitMemoryOffset : Int := 0x7F

namespace Place

/-- The place of a short register address at an instruction. -/
def ofShort (s : Store) (addr code : Int) (width : Nat) : Place :=
  if lastSpecialCode < code then gpr (.ofField code width)
  else sfr ((if s.hasRegisterBank addr then 0xF000 else 0xFE00) + 2 * code)

/-- The place of a bit-addressable word at an instruction. -/
def ofBitOffset (s : Store) (addr offset : Int) : Place :=
  if offset ≤ lastBitMemoryOffset then sfr (0xFD00 + 2 * offset)
  else if offset ≤ lastSpecialCode then
    sfr ((if s.hasRegisterBank addr then 0xF100 else 0xFF00) + 2 * (lowBits 7 offset : Int))
  else gpr (.ofField offset 2)

/-- The name of a special function register, if the place is one that has a name. -/
def specialName? : Place → Option String
  | gpr _ => none
  | sfr address => Lift166.specialName? address

/-- The value that the hardware fixes at the place, if it does. -/
def fixedWord? : Place → Option Nat
  | gpr _ => none
  | sfr address => Lift166.fixedWord? address

end Place

/-- How the upper address bits of a memory operand are found. -/
inductive Regime
  /-- From a page. -/
  | page (page : Page)
  /-- From a segment. -/
  | segment (segment : Segment)
  /-- From the data page pointer that the operand's upper two bits select. -/
  | pointers (dpp : DppVector)
deriving DecidableEq

/-- The regime for memory operands of the instruction at an address. A page comes before a segment, and custom pointers
come before those after reset. -/
def Store.regime (s : Store) (addr : Int) : Regime :=
  let entry := s.get addr
  if entry.kinds.page then .page entry.page
  else if entry.kinds.segment then .segment entry.segment
  else if entry.kinds.customDpp then .pointers entry.dpp
  else .pointers s.defaultDpp

/-- The pointers of the regime are the effective ones. -/
theorem Store.regime_eq (s : Store) (addr : Int) :
    s.regime addr =
      if (s.get addr).kinds.page then .page (s.get addr).page
      else if (s.get addr).kinds.segment then .segment (s.get addr).segment
      else .pointers (s.effectiveDpp addr) := by
  simp only [regime, effectiveDpp, customDpp?]
  generalize s.get addr = entry
  cases entry.kinds.customDpp <;> rfl

/-- The physical address of an offset within a page. -/
def Page.address (page : Page) (offset : Nat) : Nat :=
  page.val * 0x4000 + offset % 0x4000

namespace Regime

/-- The physical address of a memory operand. -/
def physical (r : Regime) (raw : Fin 65536) : Nat :=
  match r with
  | page p => p.address raw.val
  | segment s => s.val * 0x10000 + raw.val
  | pointers dpp => (dpp.select (raw.val / 0x4000)).address raw.val

/-- The data page pointer at an index, where negative indices count from the end. -/
def pointerAt? (dpp : DppVector) (index : Int) : Option Page :=
  if 0 ≤ index ∧ index < 4 then some (dpp.select index.toNat)
  else if -4 ≤ index ∧ index < 0 then some (dpp.select (index + 4).toNat)
  else none

/-- The physical address of an offset of any size. There is none where it lies outside the pages that the
pointers cover. -/
def physical? (r : Regime) (offset : Int) : Option Int :=
  match r with
  | page p => some (p.address (lowBits 14 offset))
  | segment s => some (withSegment s.val offset)
  | pointers dpp => (pointerAt? dpp (offset / 0x4000)).map fun p => p.address (lowBits 14 offset)

end Regime

end Lift166
