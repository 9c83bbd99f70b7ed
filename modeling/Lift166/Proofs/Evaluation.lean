import Lift166.Il
import Lift166.Override.Record

/-!
# The value of an expression

What an expression of the intermediate language means on a machine. An expression of `n` bytes is computed modulo
`2 ^ (8 * n)`. A shorter operand is extended with zeros, and an operation on signed values takes the sign of each
operand at the operand's own size. A load joins the bytes at an address and after it, the lowest byte first. A value
taken off the stack depends on the statement around it and has none here, and neither has a value that is not
modelled or a quotient by zero.
-/

namespace Lift166

open Il

/-- What lifted code reads and changes. The byte registers are the halves of the word registers. -/
structure Machine where
  words : Fin 16 → Fin 65536
  /-- The registers that are neither word nor byte registers. -/
  others : Register → Nat
  temps : Nat → Nat
  flags : Flag → Bool
  memory : Nat → UInt8

theorem Register.half_lt (i : Fin 16) : i.val / 2 < 16 := by
  omega

namespace Machine

def value (m : Machine) : Var → Nat
  | .machine (.word i) => m.words i
  | .machine (.byte i) =>
    let word := m.words ⟨i.val / 2, Register.half_lt i⟩
    if i.val % 2 = 0 then word.val % 256 else word.val / 256
  | .machine r => m.others r
  | .temp index => m.temps index

/-- A variable as an expression of `size` bytes reads it. -/
def read (m : Machine) (size : Nat) (var : Var) : Nat :=
  lowBits (8 * size) (m.value var)

/-- The `size` bytes at an address as a number. -/
def load (m : Machine) (size address : Nat) : Nat :=
  ofLittleEndian ((List.range size).map fun k => m.memory (address + k))

end Machine

/-! ## Operations -/

namespace Il

def UnaryOp.result (op : UnaryOp) (argSize : Nat) (x : Nat) : Int :=
  match op with
  | neg => -x
  | not => -x - 1
  | sx => signExtend (8 * argSize) x
  | zx | lowPart => x

/-- The bits of a field, turned to the left. -/
def rotateLeft (bits x amount : Nat) : Nat :=
  x <<< (amount % bits) ||| x >>> (bits - amount % bits)

/-- The result before it is cut to `size` bytes. Division goes toward zero. -/
def BinaryOp.result (op : BinaryOp) (size lhsSize rhsSize : Nat) (x y : Nat) : Option Int :=
  let signedX := signExtend (8 * lhsSize) x
  let signedY := signExtend (8 * rhsSize) y
  match op with
  | add => some (x + y)
  | sub => some (x - y)
  | and => some (x &&& y : Nat)
  | or => some (x ||| y : Nat)
  | xor => some (x ^^^ y : Nat)
  | lsl => some (x <<< y : Nat)
  | lsr => some (x >>> y : Nat)
  | asr => some (signedX >>> y)
  | rol => some (rotateLeft (8 * size) x y)
  | ror => some (rotateLeft (8 * size) x (8 * size - y % (8 * size)))
  | mulsDp => some (signedX * signedY)
  | muluDp => some (x * y : Nat)
  | divs | divsDp => if y = 0 then none else some (signedX.tdiv signedY)
  | divu | divuDp => if y = 0 then none else some (x / y : Nat)
  | mods | modsDp => if y = 0 then none else some (signedX.tmod signedY)
  | modu | moduDp => if y = 0 then none else some (x % y : Nat)
  | equal => some (if x = y then 1 else 0)

def CarryOp.result (op : CarryOp) (x y carry : Nat) : Int :=
  match op with
  | adc => x + y + carry
  | sbb => x - y - carry

namespace Expr

/-- The size of an expression in bytes. -/
def size : Expr → Nat
  | reg size _ | const size _ | pointer size _ | load size _ | unary _ size _ _ | binary _ size _ _ _
  | withCarry _ size _ _ _ _ | pop size => size
  | flag _ => 1
  | unimplemented => 0

/-- The value of an expression on a machine. -/
def eval (m : Machine) : Expr → Option Nat
  | reg size var => some (m.read size var)
  | const size value | pointer size value => some (lowBits (8 * size) value)
  | load size address => (address.eval m).map (m.load size)
  | flag f => some (m.flags f).toNat
  | unary op size _ arg => (arg.eval m).map fun x => lowBits (8 * size) (op.result arg.size x)
  | binary op size _ lhs rhs =>
    (lhs.eval m).bind fun x => (rhs.eval m).bind fun y =>
      (op.result size lhs.size rhs.size x y).map (lowBits (8 * size))
  | withCarry op size _ lhs rhs carry =>
    (lhs.eval m).bind fun x => (rhs.eval m).bind fun y => (carry.eval m).map fun c =>
      lowBits (8 * size) (op.result x y c)
  | pop _ | unimplemented => none

end Expr

end Il

/-! ## Values fit their sizes -/

namespace Machine

variable (m : Machine)

theorem read_lt (size : Nat) (var : Var) : m.read size var < 1 <<< (8 * size) :=
  lowBits_lt _ _

theorem load_lt (size address : Nat) : m.load size address < 1 <<< (8 * size) := by
  have hlt := ofLittleEndian_lt ((List.range size).map fun k => m.memory (address + k))
  rwa [List.length_map, List.length_range] at hlt

end Machine

namespace Il.Expr

variable {m : Machine}

theorem eval_lt {e : Expr} {v : Nat} (h : e.eval m = some v) : v < 1 <<< (8 * e.size) := by
  cases e with
  | reg size var =>
    cases h
    exact m.read_lt size var
  | const size value =>
    cases h
    exact lowBits_lt _ _
  | pointer size value =>
    cases h
    exact lowBits_lt _ _
  | load size address =>
    obtain ⟨a, -, rfl⟩ := Option.map_eq_some_iff.1 h
    exact m.load_lt size a
  | flag f =>
    cases h
    have hone : 1 < 1 <<< (8 * 1) := by decide
    exact Nat.lt_of_le_of_lt (m.flags f).toNat_le hone
  | unary op size flags arg =>
    obtain ⟨x, -, rfl⟩ := Option.map_eq_some_iff.1 h
    exact lowBits_lt _ _
  | binary op size flags lhs rhs =>
    obtain ⟨x, -, h⟩ := Option.bind_eq_some_iff.1 h
    obtain ⟨y, -, h⟩ := Option.bind_eq_some_iff.1 h
    obtain ⟨z, -, rfl⟩ := Option.map_eq_some_iff.1 h
    exact lowBits_lt _ _
  | withCarry op size flags lhs rhs carry =>
    obtain ⟨x, -, h⟩ := Option.bind_eq_some_iff.1 h
    obtain ⟨y, -, h⟩ := Option.bind_eq_some_iff.1 h
    obtain ⟨c, -, rfl⟩ := Option.map_eq_some_iff.1 h
    exact lowBits_lt _ _
  | pop | unimplemented => cases h

/-! ## Expressions without flags -/

theorem eval_const {n k : Nat} (h : k < 1 <<< (8 * n)) : (const n k).eval m = some k := by
  rw [eval, lowBits_of_lt h]

theorem eval_pointer {n k : Nat} (h : k < 1 <<< (8 * n)) : (pointer n k).eval m = some k := by
  rw [eval, lowBits_of_lt h]

theorem eval_quiet {op : BinaryOp} {n : Nat} {lhs rhs : Expr} {x y : Nat} {z : Int} (hx : lhs.eval m = some x)
    (hy : rhs.eval m = some y) (hz : op.result n lhs.size rhs.size x y = some z) :
    (quiet op n lhs rhs).eval m = some (lowBits (8 * n) z) := by
  rw [quiet, eval, hx, Option.bind_some, hy, Option.bind_some, hz, Option.map_some]

/-- An operation whose result fits needs no cut. -/
theorem eval_quiet_of_lt {op : BinaryOp} {n : Nat} {lhs rhs : Expr} {x y z : Nat} (hx : lhs.eval m = some x)
    (hy : rhs.eval m = some y) (hz : op.result n lhs.size rhs.size x y = some z) (hlt : z < 1 <<< (8 * n)) :
    (quiet op n lhs rhs).eval m = some z := by
  rw [eval_quiet hx hy hz, lowBits_of_lt hlt]

theorem eval_or {n : Nat} {lhs rhs : Expr} {x y : Nat} (hx : lhs.eval m = some x) (hy : rhs.eval m = some y)
    (hxlt : x < 1 <<< (8 * n)) (hylt : y < 1 <<< (8 * n)) : (quiet .or n lhs rhs).eval m = some (x ||| y) := by
  rw [Nat.one_shiftLeft] at hxlt hylt
  refine eval_quiet_of_lt hx hy rfl ?_
  rw [Nat.one_shiftLeft]
  exact Nat.or_lt_two_pow hxlt hylt

theorem eval_and {n : Nat} {lhs rhs : Expr} {x y : Nat} (hx : lhs.eval m = some x) (hy : rhs.eval m = some y)
    (hxlt : x < 1 <<< (8 * n)) : (quiet .and n lhs rhs).eval m = some (x &&& y) :=
  eval_quiet_of_lt hx hy rfl (Nat.lt_of_le_of_lt Nat.and_le_left hxlt)

theorem eval_xor {n : Nat} {lhs rhs : Expr} {x y : Nat} (hx : lhs.eval m = some x) (hy : rhs.eval m = some y)
    (hxlt : x < 1 <<< (8 * n)) (hylt : y < 1 <<< (8 * n)) : (quiet .xor n lhs rhs).eval m = some (x ^^^ y) := by
  rw [Nat.one_shiftLeft] at hxlt hylt
  refine eval_quiet_of_lt hx hy rfl ?_
  rw [Nat.one_shiftLeft]
  exact Nat.xor_lt_two_pow hxlt hylt

end Il.Expr

end Lift166
