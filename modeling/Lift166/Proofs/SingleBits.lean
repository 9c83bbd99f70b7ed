import Lift166.Proofs.Storage
import Mathlib.Data.Nat.Bitwise

/-!
# Single bits of storage

A bit-addressable word is a spot of two cells, or one that the hardware fixes, so a bit is fixed or is a bit of a cell.
Lifted code tests a bit by masking its word and changes one by writing the whole word back. Here the words that the
code computes are compared bit by bit with the word that was there.
-/

namespace Lift166

open Il

/-- Where a bit is kept. -/
inductive BitSpot
  | fixed (value : Bool)
  | kept (cell : Cell) (index : Nat)

def BitSpot.value (m : Machine) : BitSpot → Bool
  | fixed value => value
  | kept c index => (m.cell c).testBit index

/-- The bit has been given a value, and no other bit of a register or of memory has changed. A fixed bit stays as it is,
and so does everything else. -/
inductive Machine.WroteBit (m after : Machine) : BitSpot → Bool → Prop
  | dropped (value x : Bool) (same : after = m) : WroteBit m after (.fixed value) x
  | stored {c : Cell} {index : Nat} {x : Bool} (bit : (after.cell c).testBit index = x)
      (rest : ∀ other k, ¬(other = c ∧ k = index) → (after.cell other).testBit k = (m.cell other).testBit k)
      (others : after.others = m.others) (temps : after.temps = m.temps) : WroteBit m after (.kept c index) x

/-- A bit of the number at a spot. -/
def Spot.bit? (pos : Nat) : Spot → Option BitSpot
  | fixed value => some (.fixed (value.testBit pos))
  | kept cells => cells[pos / 8]?.map fun c => .kept c (pos % 8)

/-- The bit that an operand of the instruction at an address stands for. -/
def Operand.bit? (s : Store) (addr : Int) : Operand → Option BitSpot
  | bit offset pos => (bitWordSpot (s.get addr).kinds.register offset).bit? pos.val
  | _ => none

/-! ## Bits of cells -/

section Cells

variable {m after : Machine}

theorem Machine.testBit_valueAt (m : Machine) {cells : List Cell} {index : Nat} {c : Cell} (hc : cells[index]? = some c)
    {k : Nat} (hk : k < 8) : (m.valueAt cells).testBit (8 * index + k) = (m.cell c).testBit k := by
  have hsplit : ∀ (c : Cell) (rest : List Cell) (pos : Nat), (m.valueAt (c :: rest)).testBit pos =
      if pos < 8 then (m.cell c).testBit pos else (m.valueAt rest).testBit (pos - 8) := by
    intro c rest pos
    have hlt : m.cell c < 2 ^ 8 := m.cell_lt c
    rw [valueAt, Nat.add_comm]
    exact Nat.testBit_two_pow_mul_add (m.valueAt rest) hlt pos
  induction cells generalizing index with
  | nil => cases hc
  | cons first rest ih =>
    rw [hsplit]
    cases index with
    | zero =>
      cases hc
      rw [Nat.mul_zero, Nat.zero_add, if_pos hk]
    | succ index =>
      rw [if_neg (by omega), ← ih hc]
      congr 1
      omega

theorem Machine.testBit_cell_of_le (m : Machine) (c : Cell) {k : Nat} (hk : 8 ≤ k) : (m.cell c).testBit k = false := by
  have hlt : m.cell c < 2 ^ 8 := m.cell_lt c
  exact Nat.testBit_lt_two_pow (Nat.lt_of_lt_of_le hlt (Nat.pow_le_pow_right (by decide) hk))

theorem Spot.value_bit? {spot : Spot} {pos : Nat} {b : BitSpot} (h : spot.bit? pos = some b) (m : Machine) :
    b.value m = (spot.value m).testBit pos := by
  cases spot with
  | fixed value =>
    cases h
    rfl
  | kept cells =>
    obtain ⟨c, hc, rfl⟩ := Option.map_eq_some_iff.1 h
    have hbit := m.testBit_valueAt hc (Nat.mod_lt pos (by decide : 0 < 8))
    rw [Nat.div_add_mod] at hbit
    exact hbit.symm

/-- Writing a word that differs in one bit writes that bit. -/
theorem Machine.Wrote.bit {spot : Spot} {pos x : Nat} {b : BitSpot} {value : Bool} (h : m.Wrote after spot x)
    (hb : spot.bit? pos = some b) (hvalue : x.testBit pos = value)
    (hrest : ∀ k, k ≠ pos → x.testBit k = (spot.value m).testBit k) : m.WroteBit after b value := by
  cases h with
  | dropped word x same =>
    cases hb
    exact .dropped _ _ same
  | @stored cells x only held =>
    have hwritten := Spot.value_bit? hb after
    obtain ⟨c, hc, rfl⟩ := Option.map_eq_some_iff.1 hb
    refine .stored ?_ ?_ only.others only.temps
    · rw [← hvalue, ← held]
      exact hwritten
    · intro other k hne
      by_cases hmem : other ∈ cells
      · by_cases hk : k < 8
        · -- the bit is one of the word, and not the one at the position
          obtain ⟨index, hindex⟩ := List.getElem?_of_mem hmem
          have hpos : 8 * index + k ≠ pos := by
            rintro rfl
            have hdiv : (8 * index + k) / 8 = index := by omega
            have hmod : (8 * index + k) % 8 = k := by omega
            rw [hdiv, hindex] at hc
            exact hne ⟨Option.some.inj hc, hmod.symm⟩
          rw [← after.testBit_valueAt hindex hk, ← m.testBit_valueAt hindex hk, held]
          exact hrest _ hpos
        · rw [after.testBit_cell_of_le other (by omega), m.testBit_cell_of_le other (by omega)]
      · rw [only.cell other hmem]

/-- Both bytes of a bit-addressable word are there. -/
theorem Operand.exists_bit (s : Store) (addr offset : Int) (pos : Fin 16) :
    ∃ b, (Operand.bit offset pos).bit? s addr = some b := by
  have hkept : ∀ cells : List Cell, cells.length = 2 → ∃ b, (Spot.kept cells).bit? pos.val = some b := by
    intro cells hlength
    have hindex : cells[pos.val / 8]? = some (cells[pos.val / 8]) := List.getElem?_eq_getElem (by omega)
    exact ⟨_, by rw [Spot.bit?, hindex, Option.map_some]⟩
  have hword : ∀ address, ∃ b, (wordSpot 2 address).bit? pos.val = some b := by
    intro address
    unfold wordSpot
    split
    · exact ⟨_, rfl⟩
    · split
      · exact ⟨_, rfl⟩
      · exact hkept _ rfl
  rw [bit?, bitWordSpot]
  split
  · exact hword _
  · split
    · exact hword _
    · exact hkept _ rfl

end Cells

/-! ## Words -/

/-- What an operation on two bits makes of the destination bit. -/
def BitLogicKind.outcome (kind : BitLogicKind) (d s : Bool) : Bool :=
  match kind with
  | bmov => s
  | bmovn => !s
  | band => d && s
  | bor => d || s
  | bxor | bcmp => d ^^ s

/-- The word that lifted code computes for such an operation. -/
def BitLogicKind.word (kind : BitLogicKind) (w : Nat) (s : Bool) (pos : Fin 16) : Nat :=
  match kind with
  | bmov => w &&& bitHole pos ||| s.toNat <<< pos.val
  | bmovn => w &&& bitHole pos ||| (!s).toNat <<< pos.val
  | band => w &&& (bitHole pos ||| s.toNat <<< pos.val)
  | bor => w ||| s.toNat <<< pos.val
  | bxor | bcmp => w ^^^ s.toNat <<< pos.val

section Words

variable {w : Nat} (pos : Fin 16)

theorem testBit_placed (s : Bool) (k : Nat) : (s.toNat <<< pos.val).testBit k = (s && decide (k = pos.val)) := by
  cases s with
  | false => simp
  | true =>
    have hmask : Bool.toNat true <<< pos.val = 2 ^ pos.val := Nat.one_shiftLeft pos.val
    rw [hmask, Nat.testBit_two_pow, Bool.true_and]
    exact decide_eq_decide.2 eq_comm

theorem testBit_bitHole (k : Nat) : (bitHole pos).testBit k = (decide (k < 16) && decide (k ≠ pos.val)) := by
  -- stated over all positions, since `decide` takes no free one
  have hxor : ∀ pos : Fin 16, bitHole pos = (2 ^ 16 - 1) ^^^ Bool.toNat true <<< pos.val := by decide
  have hlt := pos.isLt
  rw [hxor, Nat.testBit_xor, Nat.testBit_two_pow_sub_one, testBit_placed]
  by_cases hk : k = pos.val
  · simp [hk]
  · simp [hk]

/-- The computed word differs from the old one at the position only. -/
theorem BitLogicKind.testBit_word (kind : BitLogicKind) (hw : w < 65536) (s : Bool) (k : Nat) :
    (kind.word w s pos).testBit k = if k = pos.val then kind.outcome (w.testBit k) s else w.testBit k := by
  have hlt := pos.isLt
  -- no bit of the word lies outside the hole and the position
  have hinside : (w.testBit k && decide (k < 16)) = w.testBit k := by
    by_cases hk : k < 16
    · rw [decide_eq_true hk, Bool.and_true]
    · have hpow : 2 ^ 16 ≤ 2 ^ k := Nat.pow_le_pow_right (by decide) (by omega)
      rw [Nat.testBit_lt_two_pow (Nat.lt_of_lt_of_le hw hpow), Bool.false_and]
  by_cases hpos : k = pos.val
  · have hk : k < 16 := by omega
    rw [if_pos hpos]
    cases kind <;> simp only [word, outcome, Nat.testBit_or, Nat.testBit_and, Nat.testBit_xor, testBit_placed,
      testBit_bitHole] <;> simp [hpos]
  · rw [if_neg hpos]
    cases kind <;> simp only [word, Nat.testBit_or, Nat.testBit_and, Nat.testBit_xor, testBit_placed,
      testBit_bitHole, decide_eq_false hpos, decide_eq_true hpos, ne_eq, Bool.and_true, Bool.and_false, Bool.or_false,
      Bool.xor_false, hinside]

theorem placed_lt (s : Bool) : s.toNat <<< pos.val < 65536 := by
  have hall : ∀ pos : Fin 16, ∀ s : Bool, s.toNat <<< pos.val < 65536 := by decide
  exact hall pos s

theorem bitHole_lt : bitHole pos < 65536 := by
  unfold bitHole
  omega

theorem BitLogicKind.word_lt (kind : BitLogicKind) (hw : w < 65536) (s : Bool) : kind.word w s pos < 65536 := by
  have hword : w < 2 ^ 16 := hw
  have hand : w &&& bitHole pos < 2 ^ 16 := Nat.lt_of_le_of_lt Nat.and_le_left hw
  have hplaced (s : Bool) : s.toNat <<< pos.val < 2 ^ 16 := placed_lt pos s
  cases kind with
  | bmov => exact Nat.or_lt_two_pow hand (hplaced s)
  | bmovn => exact Nat.or_lt_two_pow hand (hplaced !s)
  | band => exact Nat.lt_of_le_of_lt Nat.and_le_left hw
  | bor => exact Nat.or_lt_two_pow hword (hplaced s)
  | bxor | bcmp => exact Nat.xor_lt_two_pow hword (hplaced s)

/-- A bit is tested by masking its word. -/
theorem masked_eq_iff (w : Nat) (on : Bool) :
    (w &&& bitMask pos = if on then bitMask pos else 0) ↔ w.testBit pos = on := by
  have hmasked : w &&& bitMask pos = (w.testBit pos).toNat * bitMask pos := by
    rw [bitMask, Nat.one_shiftLeft]
    exact Nat.and_two_pow w pos.val
  have hmask : bitMask pos ≠ 0 := by
    rw [bitMask, Nat.one_shiftLeft]
    exact Nat.ne_of_gt (Nat.two_pow_pos _)
  rw [hmasked]
  cases w.testBit pos <;> cases on <;> simp [hmask, hmask.symm]

end Words

/-! ## Code -/

section Code

variable {m : Machine} {s : Store} {addr offset : Int} {pos : Fin 16} {b : BitSpot}

theorem Place.read_size (place : Place) (width : Nat) : (place.read width).size = width := by
  cases place with
  | gpr r => rfl
  | sfr address =>
    simp only [read]
    split <;> rfl

/-- The word that holds a bit, as lifted code reads it. -/
theorem eval_bitWordOf (m : Machine) (s : Store) (addr : Int) (h : LiteralFits 1 offset) :
    ∃ w, (bitWordOf s addr offset).eval m = some w ∧
      w = (bitWordSpot (s.get addr).kinds.register offset).value m ∧ w < 65536 := by
  have hword : (bitWordOf s addr offset).eval m = _ := Place.eval_read (Place.ofBitOffset_addressable s addr h)
  have hlt := Expr.eval_lt hword
  rw [bitWordOf, Place.read_size] at hlt
  exact ⟨_, hword, by rw [Place.spot_ofBitOffset], hlt⟩

/-- The word that holds a bit is written back to where it was read. -/
theorem exec_writeBitWord (m : Machine) (s : Store) (addr : Int) (h : LiteralFits 1 offset) {value : Expr} {x : Nat}
    (hvalue : value.eval m = some x) (hx : x < 65536) (flags : Option FlagPolicy) (rule : FlagRule) :
    ∃ after, ((Place.ofBitOffset s addr offset).write 2 value flags).exec rule m = some after ∧
      m.Wrote after (bitWordSpot (s.get addr).kinds.register offset) x := by
  rw [← Place.spot_ofBitOffset]
  exact Place.exec_write (Place.ofBitOffset_addressable s addr h) hvalue hx

theorem eval_position : (Expr.const 1 pos.val).eval m = some pos.val := by
  have hlt := pos.isLt
  exact Expr.eval_const (Nat.lt_trans hlt (by decide))

theorem eval_bitValueOf (h : LiteralFits 1 offset) (hb : (Operand.bit offset pos).bit? s addr = some b) :
    (bitValueOf s addr offset pos).eval m = some (b.value m).toNat := by
  obtain ⟨w, hword, hw, hlt⟩ := eval_bitWordOf m s addr h
  have hshifted : w >>> pos.val < 65536 := Nat.lt_of_le_of_lt (Nat.shiftRight_le w pos.val) hlt
  have hshift : (Expr.quiet .lsr 2 (bitWordOf s addr offset) (.const 1 pos.val)).eval m = some (w >>> pos.val) :=
    Expr.eval_quiet_of_lt hword eval_position rfl hshifted
  have hone : (Expr.const 2 1).eval m = some 1 := rfl
  rw [bitValueOf, Expr.eval_and hshift hone hshifted, Spot.value_bit? hb m, ← hw, Nat.and_one_is_mod, Nat.toNat_testBit,
    Nat.shiftRight_eq_div_pow]

/-- Whether a jump on a bit is taken. -/
theorem eval_bitTest (h : LiteralFits 1 offset) (hb : (Operand.bit offset pos).bit? s addr = some b) (on : Bool) :
    (Expr.quiet .equal 2 (.quiet .and 2 (bitWordOf s addr offset) (.const 2 (bitMask pos)))
      (.const 2 (if on then bitMask pos else 0 : Nat))).eval m = some (if b.value m = on then 1 else 0) := by
  obtain ⟨w, hword, hw, hlt⟩ := eval_bitWordOf m s addr h
  have hmask : (Expr.const 2 (bitMask pos)).eval m = some (bitMask pos) := Expr.eval_const (bitMask_lt pos)
  have htested : (Expr.quiet .and 2 (bitWordOf s addr offset) (.const 2 (bitMask pos))).eval m =
      some (w &&& bitMask pos) := Expr.eval_and hword hmask hlt
  have hexpected : (Expr.const 2 (if on then bitMask pos else 0 : Nat)).eval m =
      some (if on then bitMask pos else 0) := by
    apply Expr.eval_const
    cases on
    · exact Nat.two_pow_pos 16
    · exact bitMask_lt pos
  rw [Expr.eval_quiet htested hexpected rfl, Spot.value_bit? hb m, ← hw]
  by_cases hbit : w.testBit pos = on
  · rw [if_pos hbit, if_pos ((masked_eq_iff pos w on).2 hbit)]
    rfl
  · rw [if_neg hbit, if_neg fun hmasked => hbit ((masked_eq_iff pos w on).1 hmasked)]
    rfl

/-- The code of an operation on two bits computes the word of the operation. -/
theorem eval_combineBit {word bit : Expr} {w : Nat} {x : Bool} (kind : BitLogicKind) (hword : word.eval m = some w)
    (hw : w < 65536) (hbit : bit.eval m = some x.toNat) (pos : Fin 16) :
    (combineBit (some (.bitLogic kind)) word bit pos).eval m = some (kind.word w x pos) := by
  have hplaced {e : Expr} {y : Bool} (he : e.eval m = some y.toNat) :
      (Expr.quiet .lsl 2 e (.const 1 pos.val)).eval m = some (y.toNat <<< pos.val) :=
    Expr.eval_quiet_of_lt he eval_position rfl (placed_lt pos y)
  have hhole : (Expr.const 2 (bitHole pos)).eval m = some (bitHole pos) := Expr.eval_const (bitHole_lt pos)
  have hcleared : (Expr.quiet .and 2 word (.const 2 (bitHole pos))).eval m = some (w &&& bitHole pos) :=
    Expr.eval_and hword hhole hw
  have hclearedLt : w &&& bitHole pos < 65536 := Nat.lt_of_le_of_lt Nat.and_le_left hw
  cases kind with
  | bmov => exact Expr.eval_or hcleared (hplaced hbit) hclearedLt (placed_lt pos x)
  | bmovn =>
    have hflipped : (Expr.quiet .xor 2 bit (.const 2 1)).eval m = some (!x).toNat := by
      have hone : (Expr.const 2 1).eval m = some 1 := rfl
      rw [Expr.eval_xor hbit hone (by cases x <;> decide) (by decide)]
      cases x <;> rfl
    exact Expr.eval_or hcleared (hplaced hflipped) hclearedLt (placed_lt pos !x)
  | band => exact Expr.eval_and hword (Expr.eval_or hhole (hplaced hbit) (bitHole_lt pos) (placed_lt pos x)) hw
  | bor => exact Expr.eval_or hword (hplaced hbit) hw (placed_lt pos x)
  | bxor | bcmp => exact Expr.eval_xor hword (hplaced hbit) hw (placed_lt pos x)

/-- Setting or clearing a bit writes it and leaves the flags alone. -/
theorem exec_assignBit (h : LiteralFits 1 offset) (hb : (Operand.bit offset pos).bit? s addr = some b) (on : Bool)
    (m : Machine) (rule : FlagRule) : ∃ after, (assignBit s addr offset pos on).exec rule m = some after ∧
      m.WroteBit after b on ∧ after.flags = m.flags := by
  obtain ⟨w, hword, hw, hlt⟩ := eval_bitWordOf m s addr h
  -- the word that is written, and its bits
  obtain ⟨x, hvalue, hx, hbit⟩ : ∃ x, (if on then Expr.quiet .or 2 (bitWordOf s addr offset) (.const 2 (bitMask pos))
      else .quiet .and 2 (bitWordOf s addr offset) (.const 2 (bitHole pos))).eval m = some x ∧ x < 65536 ∧
      ∀ k, x.testBit k = if k = pos.val then on else w.testBit k := by
    cases on with
    | true =>
      have hmask : (Expr.const 2 (bitMask pos)).eval m = some (bitMask pos) := Expr.eval_const (bitMask_lt pos)
      refine ⟨_, Expr.eval_or hword hmask hlt (bitMask_lt pos), BitLogicKind.word_lt pos .bor hlt true, ?_⟩
      intro k
      have hk := BitLogicKind.testBit_word pos .bor hlt true k
      rwa [BitLogicKind.outcome, Bool.or_true] at hk
    | false =>
      have hhole : (Expr.const 2 (bitHole pos)).eval m = some (bitHole pos) := Expr.eval_const (bitHole_lt pos)
      refine ⟨_, Expr.eval_and hword hhole hlt, Nat.lt_of_le_of_lt Nat.and_le_left hlt, ?_⟩
      intro k
      have hk := BitLogicKind.testBit_word pos .bmov hlt false k
      rwa [BitLogicKind.word, Bool.toNat_false, Nat.zero_shiftLeft, Nat.or_zero] at hk
  obtain ⟨after, hexec, hwrote⟩ : ∃ after, (assignBit s addr offset pos on).exec rule m = some after ∧
      m.Wrote after _ x := exec_writeBitWord m s addr h hvalue hx none rule
  refine ⟨after, hexec, hwrote.bit hb ?_ ?_, Stmt.exec_flags hexec (assignBit_tally s addr offset pos on)⟩
  · rw [hbit, if_pos rfl]
  · intro k hk
    rw [hbit, if_neg hk, hw]

end Code

end Lift166
