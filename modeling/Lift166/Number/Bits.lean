/-!
# Integers as bit patterns

Addresses and operand values are integers of any sign and size. A field of such a value is read from its
infinite two's-complement pattern, so the low `n` bits of `x` are the remainder of `x` by `2 ^ n`, and a field
that starts at bit `k` is read after a floor division by `2 ^ k`. Both operations are those of `Int` for a
positive divisor, which keeps every definition here within reach of linear arithmetic.
-/

namespace Lift166

/-- The `n` low bits of an integer. -/
def lowBits (n : Nat) (x : Int) : Nat :=
  (x % (1 <<< n : Nat)).toNat

/-- The value of the `n` low bits when bit `n - 1` counts as the sign. -/
def signExtend (n : Nat) (x : Int) : Int :=
  Int.bmod x (1 <<< n)

/-- The first address of the 64 KiB segment that holds `addr`, within the 24-bit address space. -/
def segmentBase (addr : Int) : Nat :=
  lowBits 8 (addr / 0x10000) * 0x10000

/-- The address wrapped into the 24-bit address space. -/
def wrapAddress (addr : Int) : Nat :=
  lowBits 24 addr

/-- The even address at or just below `addr`. -/
def evenFloor (addr : Int) : Int :=
  addr - addr % 2

/-- Every second integer from `first` on, up to but not including `stop`. -/
def everySecond (first stop : Int) : List Int :=
  (List.range ((stop - first + 1) / 2).toNat).map fun (k : Nat) => first + 2 * (k : Int)

/-- Sets the bits of `segment` in the byte above the low word of `x`, and keeps every other bit. -/
def withSegment (segment : Nat) (x : Int) : Int :=
  let byte := lowBits 8 (x / 0x10000)
  x + (((byte ||| segment) - byte : Nat) : Int) * 0x10000

theorem one_shiftLeft_pos (n : Nat) : 0 < 1 <<< n := by
  rw [Nat.one_shiftLeft]
  exact Nat.two_pow_pos n

theorem natCast_lowBits (n : Nat) (x : Int) : (lowBits n x : Int) = x % (1 <<< n : Nat) :=
  Int.toNat_of_nonneg (Int.emod_nonneg x (Int.ne_of_gt (Int.natCast_pos.2 (one_shiftLeft_pos n))))

theorem lowBits_lt (n : Nat) (x : Int) : lowBits n x < 1 <<< n := by
  have hlt := Int.emod_lt_of_pos x (Int.natCast_pos.2 (one_shiftLeft_pos n))
  rw [← natCast_lowBits] at hlt
  exact Int.ofNat_lt.1 hlt

theorem lowBits_natCast (n k : Nat) : lowBits n k = k % 1 <<< n := by
  rw [lowBits, ← Int.natCast_emod, Int.toNat_natCast]

/-- A number that fits a field is read back from its low bits. -/
theorem lowBits_of_lt {n k : Nat} (h : k < 1 <<< n) : lowBits n k = k := by
  rw [lowBits_natCast, Nat.mod_eq_of_lt h]

end Lift166
