import Lift166.Proofs.BitEffect

/-!
# Products and quotients

A multiplication leaves the double word of the product in `MDH` and `MDL`, and a division leaves the remainder and the
quotient there. Both results of a division are those of the dividend as it was before. Dividing a product by one of its
factors gives the other factor, for numbers with and without sign.
-/

namespace Lift166

open Il

/-! ## The pair of results -/

/-- The word in a special function register. -/
def Machine.special (m : Machine) (r : SpecialRegister) : Nat :=
  m.load 2 r.address

/-- The double word in `MDH` and `MDL`. -/
def Machine.pair (m : Machine) : Nat :=
  m.special .mdh * 65536 + m.special .mdl

/-- The bytes of `MDH` and `MDL`. -/
def pairCells : List Cell :=
  memoryCells 2 SpecialRegister.mdh.address ++ memoryCells 2 SpecialRegister.mdl.address

/-- The number that a word stands for, with or without sign. -/
def wordNumber (signed : Bool) (w : Nat) : Int :=
  if signed ∧ 0x8000 ≤ w then w - 0x10000 else w

/-- The number that a double word stands for, with or without sign. -/
def longNumber (signed : Bool) (w : Nat) : Int :=
  if signed ∧ 0x80000000 ≤ w then w - 0x100000000 else w

/-- What a division divides: the double word, or the word in `MDL`. -/
def Machine.dividend (m : Machine) (signed long : Bool) : Int :=
  if long then longNumber signed m.pair else wordNumber signed (m.special .mdl)

/-- At most the given cells and the temporaries have changed. -/
structure Machine.KeptOutside (m after : Machine) (cells : List Cell) : Prop where
  cell : ∀ c, c ∉ cells → after.cell c = m.cell c
  others : after.others = m.others

namespace Machine

variable {m between after : Machine} {cells : List Cell}

theorem OnlyChanged.keptOutside {changed : List Cell} (h : m.OnlyChanged after changed)
    (hcells : ∀ c ∈ changed, c ∈ cells) : m.KeptOutside after cells :=
  ⟨fun c hc => h.cell c fun hmem => hc (hcells c hmem), h.others⟩

theorem KeptOutside.trans {inner : List Cell} (h : m.KeptOutside between inner) (h' : between.KeptOutside after cells)
    (hcells : ∀ c ∈ inner, c ∈ cells) : m.KeptOutside after cells := by
  refine ⟨?_, h'.others.trans h.others⟩
  intro c hc
  exact (h'.cell c hc).trans (h.cell c fun hmem => hc (hcells c hmem))

theorem KeptOutside.load (h : m.KeptOutside after cells) {size address : Nat}
    (hcells : ∀ c ∈ memoryCells size address, c ∉ cells) : after.load size address = m.load size address := by
  rw [← valueAt_memoryCells, ← valueAt_memoryCells]
  exact valueAt_congr fun c hc => h.cell c (hcells c hc)

theorem KeptOutside.word (h : m.KeptOutside after cells) {index : Fin 16}
    (hcells : ∀ c ∈ (Register.word index).cells, c ∉ cells) : after.words index = m.words index := by
  have hlow := h.cell (.half index false) (hcells _ List.mem_cons_self)
  have hhigh := h.cell (.half index true) (hcells _ (List.mem_cons_of_mem _ List.mem_cons_self))
  simp only [Machine.cell] at hlow hhigh
  apply Fin.ext
  omega

theorem KeptOutside.dividend (h : m.KeptOutside after []) (signed long : Bool) :
    after.dividend signed long = m.dividend signed long := by
  have hspecial : ∀ r, after.special r = m.special r := fun r => h.load fun _ _ => List.not_mem_nil
  simp only [Machine.dividend, pair, hspecial]

theorem special_lt (m : Machine) (r : SpecialRegister) : m.special r < 65536 :=
  m.load_lt 2 r.address

theorem pair_lt (m : Machine) : m.pair < 4294967296 := by
  have hhigh := m.special_lt .mdh
  have hlow := m.special_lt .mdl
  unfold pair
  omega

end Machine

section Running

variable {m : Machine} {x y : Nat} {value : Expr}

theorem SpecialRegister.address_lt (r : SpecialRegister) : r.address < 1 <<< (8 * 3) := by
  cases r <;> decide

theorem eval_special (r : SpecialRegister) (m : Machine) : r.load.eval m = some (m.special r) := by
  rw [SpecialRegister.load, Expr.eval, Expr.eval_pointer r.address_lt]
  rfl

theorem eval_temp {size index : Nat} (hx : x < 1 <<< (8 * size)) (h : m.temps index = x) :
    (Expr.temp size index).eval m = some x := by
  subst h
  exact congrArg some (lowBits_of_lt hx)

theorem eval_lowPart (h : value.eval m = some x) :
    (Expr.quietUnary .lowPart 2 value).eval m = some (x % 65536) := by
  rw [Expr.quietUnary, Expr.eval, h, Option.map_some]
  exact congrArg some (lowBits_natCast (8 * 2) x)

theorem eval_zx {size : Nat} (h : value.eval m = some x) (hx : x < 1 <<< (8 * size)) :
    (Expr.quietUnary .zx size value).eval m = some x := by
  rw [Expr.quietUnary, Expr.eval, h, Option.map_some]
  exact congrArg some (lowBits_of_lt hx)

/-- The long dividend is the double word of the pair. -/
theorem eval_longDividend (m : Machine) : longDividend.eval m = some m.pair := by
  have hhigh := m.special_lt .mdh
  have hlow := m.special_lt .mdl
  have hshifted : m.special .mdh <<< 16 = m.special .mdh * 65536 := Nat.shiftLeft_eq _ _
  have hupper : (Expr.quiet .lsl 4 (.quietUnary .zx 4 SpecialRegister.mdh.load) (.const 1 16)).eval m =
      some (m.special .mdh <<< 16) := by
    refine Expr.eval_quiet_of_lt (eval_zx (eval_special .mdh m) (by omega)) (Expr.eval_const (by decide)) rfl ?_
    omega
  rw [longDividend, Expr.eval_or hupper (eval_zx (eval_special .mdl m) (by omega)) (by omega) (by omega),
    ← Nat.shiftLeft_add_eq_or_of_lt (i := 16) hlow, hshifted]
  rfl

theorem Machine.assign_temp (m : Machine) {size index : Nat} (hx : x < 1 <<< (8 * size)) :
    m.assign size (.temp index) x = { m with temps := Function.update m.temps index x } := by
  have hlow : lowBits (8 * size) x = x := lowBits_of_lt hx
  rw [assign, hlow]

/-- Assigning a temporary changes no storage. -/
theorem exec_setTemp (size index : Nat) (hvalue : value.eval m = some x) (hx : x < 1 <<< (8 * size))
    (rule : FlagRule) :
    ∃ after, (Stmt.setTemp size index value).exec rule m = some after ∧
      after.temps = Function.update m.temps index x ∧ m.KeptOutside after [] := by
  have heffect : (Stmt.setTemp size index value).effect m =
      some { m with temps := Function.update m.temps index x } := by
    rw [Stmt.setTemp, Stmt.effect, hvalue, Option.map_some, m.assign_temp hx]
  rw [Stmt.exec, heffect, Option.map_some]
  refine ⟨_, rfl, rfl, ?_, rfl⟩
  intro c _
  rw [Machine.cell_updateFlags]
  cases c with
  | half index upper => cases upper <;> rfl
  | memory address => rfl

theorem exec_special (r : SpecialRegister) (hvalue : value.eval m = some x) (hx : x < 65536) (rule : FlagRule) :
    ∃ after, (r.store value).exec rule m = some after ∧ m.OnlyChanged after (memoryCells 2 r.address) ∧
      after.special r = x := by
  have hfits : x < 1 <<< (8 * 2) := hx
  obtain ⟨after, hexec, hwrote⟩ := exec_store (Expr.eval_pointer r.address_lt) hvalue hfits
  cases hwrote with
  | stored only held => exact ⟨after, hexec, only, (after.valueAt_memoryCells 2 r.address).symm.trans held⟩

theorem mem_pairCells_of_mdl {c : Cell} (h : c ∈ memoryCells 2 SpecialRegister.mdl.address) : c ∈ pairCells :=
  List.mem_append_right _ h

theorem mem_pairCells_of_mdh {c : Cell} (h : c ∈ memoryCells 2 SpecialRegister.mdh.address) : c ∈ pairCells :=
  List.mem_append_left _ h

/-- The two results are stored one after the other. The second is not lost with the first, since it is computed from
temporaries. -/
theorem run_storePair {low high : Expr} (hlow : low.eval m = some x) (hx : x < 65536)
    (hhigh : ∀ after : Machine, after.temps = m.temps → high.eval after = some y) (hy : y < 65536) (rule : FlagRule) :
    ∃ final, run rule [SpecialRegister.mdl.store low, SpecialRegister.mdh.store high] m = some (final, .next) ∧
      final.special .mdl = x ∧ final.special .mdh = y ∧ m.KeptOutside final pairCells := by
  obtain ⟨between, hfirst, hchanged, hmdl⟩ := exec_special .mdl hlow hx rule
  obtain ⟨final, hsecond, hchanged', hmdh⟩ := exec_special .mdh (hhigh between hchanged.temps) hy rule
  have hkept := hchanged.keptOutside (fun _ => mem_pairCells_of_mdl)
  have hkept' := hchanged'.keptOutside (fun _ => mem_pairCells_of_mdh)
  refine ⟨final, ?_, ?_, hmdh, hkept.trans hkept' fun _ => id⟩
  · rw [run_of_exec rfl hfirst, run_of_exec rfl hsecond, run_nil]
  · have hapart : ∀ c ∈ memoryCells 2 SpecialRegister.mdl.address, c ∉ memoryCells 2 SpecialRegister.mdh.address := by
      decide
    have hkeeps : between.KeptOutside final (memoryCells 2 SpecialRegister.mdh.address) :=
      hchanged'.keptOutside fun _ => id
    exact (hkeeps.load hapart).trans hmdl

/-- The code of a multiplication leaves the value in the pair. -/
theorem run_product (hvalue : value.eval m = some x) (hx : x < 4294967296) (rule : FlagRule) :
    ∃ final, run rule [.setTemp 4 0 value, SpecialRegister.mdl.store (.quietUnary .lowPart 2 (.temp 4 0)),
        SpecialRegister.mdh.store (.quietUnary .lowPart 2 (.quiet .lsr 4 (.temp 4 0) (.const 1 16)))] m =
      some (final, .next) ∧ final.pair = x ∧ m.KeptOutside final pairCells := by
  obtain ⟨between, hexec, htemps, hkept⟩ := exec_setTemp 4 0 hvalue hx rule
  have htemp : ∀ after : Machine, after.temps = between.temps → (Expr.temp 4 0).eval after = some x := by
    intro after hsame
    exact eval_temp hx (by rw [hsame, htemps, Function.update_self])
  have hlow := eval_lowPart (htemp between rfl)
  have hhigh : ∀ after : Machine, after.temps = between.temps →
      (Expr.quietUnary .lowPart 2 (.quiet .lsr 4 (.temp 4 0) (.const 1 16))).eval after = some (x / 65536) := by
    intro after hsame
    have hshift : (Expr.quiet .lsr 4 (.temp 4 0) (.const 1 16)).eval after = some (x >>> 16) := by
      refine Expr.eval_quiet_of_lt (htemp after hsame) (Expr.eval_const (by decide)) rfl ?_
      rw [Nat.shiftRight_eq_div_pow]
      omega
    rw [eval_lowPart hshift, Nat.shiftRight_eq_div_pow]
    congr 1
    omega
  obtain ⟨final, hrun, hmdl, hmdh, hstored⟩ := run_storePair hlow (by omega) hhigh (by omega) rule
  refine ⟨final, ?_, ?_, hkept.trans hstored (by simp)⟩
  · rw [run_of_exec rfl hexec, hrun]
  · rw [Machine.pair, hmdl, hmdh]
    omega

/-- The code of a division leaves remainder and quotient in the pair. Both are values on any machine that has the
storage of this one, so they do not depend on the temporaries. -/
theorem run_division {quotient remainder : Expr} {q r : Nat}
    (hquotient : ∀ after, m.KeptOutside after [] → quotient.eval after = some q) (hq : q < 65536)
    (hremainder : ∀ after, m.KeptOutside after [] → remainder.eval after = some r) (hr : r < 65536)
    (rule : FlagRule) :
    ∃ final, run rule [.setTemp 2 0 quotient, .setTemp 2 1 remainder, SpecialRegister.mdl.store (.temp 2 0),
        SpecialRegister.mdh.store (.temp 2 1)] m = some (final, .next) ∧
      final.special .mdl = q ∧ final.special .mdh = r ∧ m.KeptOutside final pairCells := by
  obtain ⟨first, hfirst, htemps, hkept⟩ := exec_setTemp 2 0 (hquotient m ⟨fun _ _ => rfl, rfl⟩) hq rule
  obtain ⟨second, hsecond, htemps', hkept'⟩ := exec_setTemp 2 1 (hremainder first hkept) hr rule
  have hlow : (Expr.temp 2 0).eval second = some q := by
    refine eval_temp hq ?_
    rw [htemps', Function.update_of_ne Nat.zero_ne_one, htemps, Function.update_self]
  have hhigh : ∀ after : Machine, after.temps = second.temps → (Expr.temp 2 1).eval after = some r := by
    intro after hsame
    exact eval_temp hr (by rw [hsame, htemps', Function.update_self])
  obtain ⟨final, hrun, hmdl, hmdh, hstored⟩ := run_storePair hlow hq hhigh hr rule
  refine ⟨final, ?_, hmdl, hmdh, (hkept.trans hkept' fun _ => id).trans hstored (by simp)⟩
  rw [run_of_exec rfl hfirst, run_of_exec rfl hsecond, hrun]

/-! ## Numbers with and without sign -/

theorem wordNumber_false (w : Nat) : wordNumber false w = w :=
  if_neg fun h => Bool.false_ne_true h.1

theorem wordNumber_true (w : Nat) : wordNumber true w = if 0x8000 ≤ w then (w : Int) - 0x10000 else w := by
  simp only [wordNumber, true_and]

theorem longNumber_false (w : Nat) : longNumber false w = w :=
  if_neg fun h => Bool.false_ne_true h.1

theorem longNumber_true (w : Nat) : longNumber true w = if 0x80000000 ≤ w then (w : Int) - 0x100000000 else w := by
  simp only [longNumber, true_and]

theorem signExtend_word (hx : x < 65536) : signExtend (8 * 2) x = wordNumber true x := by
  have hbits : 1 <<< (8 * 2) = 65536 := rfl
  rw [signExtend, hbits, Int.bmod, wordNumber_true]
  split <;> split <;> omega

theorem signExtend_long (hx : x < 4294967296) : signExtend (8 * 4) x = longNumber true x := by
  have hbits : 1 <<< (8 * 4) = 4294967296 := rfl
  rw [signExtend, hbits, Int.bmod, longNumber_true]
  split <;> split <;> omega

theorem lowBits_word (v : Int) : (lowBits 16 v : Int) = v % 65536 :=
  natCast_lowBits 16 v

theorem lowBits_long (v : Int) : (lowBits 32 v : Int) = v % 4294967296 :=
  natCast_lowBits 32 v

/-- A word is its number, or its number and the number of words. -/
theorem wordNumber_cases (signed : Bool) (hx : x < 65536) :
    -32768 ≤ wordNumber signed x ∧
      (wordNumber signed x = x ∨ wordNumber signed x < 0 ∧ wordNumber signed x = x - 65536) := by
  cases signed with
  | false =>
    rw [wordNumber_false]
    omega
  | true =>
    rw [wordNumber_true]
    split <;> omega

theorem lowBits_wordNumber (signed : Bool) (hx : x < 65536) : lowBits 16 (wordNumber signed x) = x := by
  have hlow := lowBits_word (wordNumber signed x)
  have hcases := wordNumber_cases signed hx
  omega

theorem wordNumber_ne_zero (signed : Bool) (hx : x < 65536) (hne : x ≠ 0) : wordNumber signed x ≠ 0 := by
  have hcases := wordNumber_cases signed hx
  omega

/-- The product of two words is the number of its double word. -/
theorem longNumber_product (signed : Bool) (hx : x < 65536) (hy : y < 65536) :
    longNumber signed (lowBits 32 (wordNumber signed x * wordNumber signed y)) =
      wordNumber signed x * wordNumber signed y := by
  have hlow := lowBits_long (wordNumber signed x * wordNumber signed y)
  cases signed with
  | false =>
    have hle : x * y ≤ 65535 * 65535 := Nat.mul_le_mul (by omega) (by omega)
    rw [longNumber_false, hlow, wordNumber_false, wordNumber_false, ← Int.natCast_mul]
    omega
  | true =>
    have habs : ∀ w < 65536, (wordNumber true w).natAbs ≤ 32768 := by
      intro w hw
      rw [wordNumber_true]
      split <;> omega
    have hle : (wordNumber true x * wordNumber true y).natAbs ≤ 32768 * 32768 := by
      rw [Int.natAbs_mul]
      exact Nat.mul_le_mul (habs x hx) (habs y hy)
    rw [longNumber_true]
    split <;> omega

/-! ## The operations -/

/-- The operation that takes the product. -/
theorem eval_multiplication (signed : Bool) (n k : Fin 16) (flags : Option FlagPolicy) (m : Machine) :
    (Expr.binary (if signed then .mulsDp else .muluDp) 4 flags (.register 2 (.word n)) (.register 2 (.word k))).eval m =
      some (lowBits 32 (wordNumber signed (m.words n) * wordNumber signed (m.words k))) := by
  have hn := (m.words n).isLt
  have hk := (m.words k).isLt
  rw [Expr.eval, eval_word, eval_word, Option.bind_some, Option.bind_some]
  cases signed with
  | false =>
    rw [wordNumber_false, wordNumber_false, ← Int.natCast_mul]
    rfl
  | true =>
    rw [← signExtend_word hn, ← signExtend_word hk]
    rfl

/-- The kind of a division, by the sign of its numbers and the width of its dividend. -/
def divisionKind (signed long : Bool) : DivKind :=
  if long then (if signed then .divl else .divlu) else if signed then .div else .divu

/-- The operations that take quotient and remainder. -/
theorem eval_divisionOf (signed long : Bool) {quotient remainder : BinaryOp} {dividend : Expr}
    (h : divisionOf (some (.div (divisionKind signed long))) = (quotient, remainder, dividend)) {k : Fin 16}
    (hk : (m.words k).val ≠ 0) (flags : Option FlagPolicy) :
    (Expr.binary quotient 2 flags dividend (.register 2 (.word k))).eval m =
        some (lowBits 16 ((m.dividend signed long).tdiv (wordNumber signed (m.words k)))) ∧
      (Expr.binary remainder 2 flags dividend (.register 2 (.word k))).eval m =
        some (lowBits 16 ((m.dividend signed long).tmod (wordNumber signed (m.words k)))) := by
  have hshort : m.dividend true false = signExtend (8 * 2) (m.special .mdl) :=
    (signExtend_word (m.special_lt .mdl)).symm
  have hlong : m.dividend true true = signExtend (8 * 4) m.pair := (signExtend_long m.pair_lt).symm
  cases long <;> cases signed <;> cases h
  all_goals
    simp only [Expr.eval, eval_special, eval_longDividend, eval_word, Option.bind_some, BinaryOp.result, if_neg hk,
      Option.map_some]
  case false.false | true.false =>
    -- natural numbers are divided as integers are
    rw [Int.ofNat_tdiv, Int.ofNat_tmod]
    exact ⟨rfl, rfl⟩
  case false.true =>
    rw [hshort, ← signExtend_word (m.words k).isLt]
    exact ⟨rfl, rfl⟩
  case true.true =>
    rw [hlong, ← signExtend_word (m.words k).isLt]
    exact ⟨rfl, rfl⟩

end Running

/-! ## Decoded instructions -/

/-- The mnemonic of a multiplication. -/
def productName (signed : Bool) : String :=
  if signed then "mul" else "mulu"

/-- The mnemonic of a division. -/
def quotientName (signed long : Bool) : String :=
  if long then (if signed then "divl" else "divlu") else if signed then "div" else "divu"

theorem opcodeTable_pair : ∀ entry ∈ opcodeTable, ∀ signed,
    (entry.mnemonic = productName signed → entry.family = .mul ∧
      entry.operation = some (if signed then .signed else .unsigned)) ∧
    ∀ long, entry.mnemonic = quotientName signed long → entry.family = .div ∧
      entry.operation = some (.div (divisionKind signed long)) := by
  decide +kernel

section Decoding

variable {bytes : List UInt8} {addr : Int} {i : Instruction}

theorem mul_of_mnemonic (h : decode bytes addr = .ok i) {signed : Bool} (hname : i.mnemonic = productName signed) :
    i.family = .mul ∧ i.operation = some (if signed then .signed else .unsigned) := by
  obtain ⟨entry, hmem, hrow, hfamily, hoperation⟩ := row_of_mnemonic h (by rw [hname]; cases signed <;> decide)
  rw [hfamily, hoperation]
  exact (opcodeTable_pair entry hmem signed).1 (hrow.symm.trans hname)

theorem div_of_mnemonic (h : decode bytes addr = .ok i) {signed long : Bool}
    (hname : i.mnemonic = quotientName signed long) :
    i.family = .div ∧ i.operation = some (.div (divisionKind signed long)) := by
  obtain ⟨entry, hmem, hrow, hfamily, hoperation⟩ :=
    row_of_mnemonic h (by rw [hname]; cases signed <;> cases long <;> decide)
  rw [hfamily, hoperation]
  exact (opcodeTable_pair entry hmem signed).2 long (hrow.symm.trans hname)

/-- The registers of multiplications and divisions are words. -/
theorem word_of_operand (h : decode bytes addr = .ok i) (hfamily : i.family = .mul ∨ i.family = .div) {slot : Slot}
    {r : Register} {width : Nat} (hop : i.operand slot = .ok (.reg r width)) : ∃ n, r = .word n ∧ width = 2 := by
  have hregular := regular_of_decode h
  have hword : r.HasSize 2 := by
    refine hregular.words ?_ hop
    rcases hfamily with hfamily | hfamily
    · rw [hfamily]
      decide
    · rw [hfamily]
      decide
  have hsize : r.HasSize width := hregular.operands hop
  cases hword with
  | word n =>
    cases hsize
    exact ⟨n, rfl, rfl⟩

/-- The instruction at an address is lifted, and its code runs to its end. -/
def Lifter.Runs (l : Lifter) (s : Store) (addr : Int) (i : Instruction) (rule : FlagRule) (m final : Machine) : Prop :=
  ∃ code, (l.lift s i addr).answer = .ok ⟨i.length, code⟩ ∧ run rule code m = some (final, .next)

theorem runs_mul (h : decode bytes addr = .ok i) {signed : Bool} (hname : i.mnemonic = productName signed)
    (l : Lifter) (s : Store) (rule : FlagRule) (m : Machine) :
    ∃ n k, i.operand .dst = .ok (.reg (.word n) 2) ∧ i.operand .src = .ok (.reg (.word k) 2) ∧
      ∃ final, l.Runs s addr i rule m final ∧ m.KeptOutside final pairCells ∧
        final.pair = lowBits 32 (wordNumber signed (m.words n) * wordNumber signed (m.words k)) := by
  obtain ⟨hfamily, hoperation⟩ := mul_of_mnemonic h hname
  obtain ⟨code, hcode, hemits⟩ := lift_emits h l s
  rw [hfamily] at hemits
  cases hemits with
  | @mul lhs rhs lhsWidth rhsWidth op dstOperand srcOperand chosen =>
    obtain ⟨n, rfl, rfl⟩ := word_of_operand h (.inl hfamily) dstOperand
    obtain ⟨k, rfl, rfl⟩ := word_of_operand h (.inl hfamily) srcOperand
    have hop : op = if signed then .mulsDp else .muluDp := by
      rw [chosen, hoperation]
      cases signed <;> rfl
    subst hop
    obtain ⟨final, hrun, hpair, hkept⟩ :=
      run_product (eval_multiplication signed n k i.flags m) (lowBits_lt 32 _) rule
    exact ⟨n, k, dstOperand, srcOperand, final, ⟨_, hcode, hrun⟩, hkept, hpair⟩

theorem runs_div (h : decode bytes addr = .ok i) {signed long : Bool} (hname : i.mnemonic = quotientName signed long)
    (l : Lifter) (s : Store) (rule : FlagRule) (m : Machine) :
    ∃ k, i.operand .src = .ok (.reg (.word k) 2) ∧
      ((m.words k).val ≠ 0 → ∃ final, l.Runs s addr i rule m final ∧ m.KeptOutside final pairCells ∧
        final.special .mdl = lowBits 16 ((m.dividend signed long).tdiv (wordNumber signed (m.words k))) ∧
        final.special .mdh = lowBits 16 ((m.dividend signed long).tmod (wordNumber signed (m.words k)))) := by
  obtain ⟨hfamily, hoperation⟩ := div_of_mnemonic h hname
  obtain ⟨code, hcode, hemits⟩ := lift_emits h l s
  rw [hfamily] at hemits
  cases hemits with
  | @div r width quotient remainder dividend srcOperand chosen =>
    obtain ⟨k, rfl, rfl⟩ := word_of_operand h (.inr hfamily) srcOperand
    refine ⟨k, srcOperand, ?_⟩
    intro hk
    rw [hoperation] at chosen
    -- the remainder is taken when a temporary has changed, but dividend and divisor are as before
    have heval : ∀ after, m.KeptOutside after [] → ∀ flags,
        (Expr.binary quotient 2 flags dividend (.register 2 (.word k))).eval after =
            some (lowBits 16 ((m.dividend signed long).tdiv (wordNumber signed (m.words k)))) ∧
          (Expr.binary remainder 2 flags dividend (.register 2 (.word k))).eval after =
            some (lowBits 16 ((m.dividend signed long).tmod (wordNumber signed (m.words k)))) := by
      intro after hafter flags
      have hdivisor : after.words k = m.words k := hafter.word fun _ _ => List.not_mem_nil
      have hresults := eval_divisionOf signed long chosen (hdivisor ▸ hk) flags
      rwa [hdivisor, hafter.dividend] at hresults
    obtain ⟨final, hrun, hmdl, hmdh, hkept⟩ := run_division (fun after hafter => (heval after hafter i.flags).1)
      (lowBits_lt 16 _) (fun after hafter => (heval after hafter none).2) (lowBits_lt 16 _) rule
    exact ⟨final, ⟨_, hcode, hrun⟩, hkept, hmdl, hmdh⟩

/-- **Products and quotients.** A multiplication leaves the product of its registers in `MDH` and `MDL`, modulo the
double word. A division by a register that is not zero leaves the quotient in `MDL` and the remainder in `MDH`, toward
zero, of the word in `MDL` or the double word in both as it was before. Neither changes another register or another byte
of memory. A product that is divided by its second factor gives the first and no remainder. -/
theorem products_and_quotients (h : decode bytes addr = .ok i) (l : Lifter) (s : Store) (rule : FlagRule)
    (m : Machine) :
    (∀ signed, i.mnemonic = productName signed →
      ∃ n k, i.operand .dst = .ok (.reg (.word n) 2) ∧ i.operand .src = .ok (.reg (.word k) 2) ∧
        (∃ final, l.Runs s addr i rule m final ∧ m.KeptOutside final pairCells ∧
          final.pair = lowBits 32 (wordNumber signed (m.words n) * wordNumber signed (m.words k))) ∧
        ∀ other place j, decode other place = .ok j → j.mnemonic = quotientName signed true →
          j.operand .src = .ok (.reg (.word k) 2) → (m.words k).val ≠ 0 →
          ∀ (l' : Lifter) (t : Store) (rule' : FlagRule), ∃ between final, l.Runs s addr i rule m between ∧
            l'.Runs t place j rule' between final ∧ final.special .mdl = (m.words n).val ∧ final.special .mdh = 0) ∧
    (∀ signed long, i.mnemonic = quotientName signed long →
      ∃ k, i.operand .src = .ok (.reg (.word k) 2) ∧
        ((m.words k).val ≠ 0 → ∃ final, l.Runs s addr i rule m final ∧ m.KeptOutside final pairCells ∧
          final.special .mdl = lowBits 16 ((m.dividend signed long).tdiv (wordNumber signed (m.words k))) ∧
          final.special .mdh = lowBits 16 ((m.dividend signed long).tmod (wordNumber signed (m.words k))))) := by
  refine ⟨?_, fun signed long hname => runs_div h hname l s rule m⟩
  intro signed hname
  obtain ⟨n, k, hdst, hsrc, between, hruns, hkept, hpair⟩ := runs_mul h hname l s rule m
  refine ⟨n, k, hdst, hsrc, ⟨between, hruns, hkept, hpair⟩, ?_⟩
  intro other place j hj hname' hsrc' hk l' t rule'
  have hfactor : between.words k = m.words k := hkept.word (by simp [Register.cells, pairCells, memoryCells])
  have hdividend : between.dividend signed true = wordNumber signed (m.words n) * wordNumber signed (m.words k) := by
    show longNumber signed between.pair = _
    rw [hpair, longNumber_product signed (m.words n).isLt (m.words k).isLt]
  have hdivisor := wordNumber_ne_zero signed (m.words k).isLt hk
  obtain ⟨d, hd, hdivides⟩ := runs_div hj hname' l' t rule' between
  obtain rfl : k = d := by
    cases hsrc'.symm.trans hd
    rfl
  obtain ⟨final, hruns', -, hmdl, hmdh⟩ := hdivides (hfactor ▸ hk)
  refine ⟨between, final, hruns, hruns', ?_, ?_⟩
  · rw [hmdl, hdividend, hfactor, Int.mul_tdiv_cancel _ hdivisor, lowBits_wordNumber signed (m.words n).isLt]
  · rw [hmdh, hdividend, hfactor, Int.mul_tmod_left]
    rfl

/-- A machine whose registers all hold the lowest number with sign. -/
def lowestWords : Machine :=
  ⟨fun _ => wordOf 0x8000, fun _ => 0, fun _ => 0, fun _ => false, fun _ => 0⟩

/-- The product of the lowest number with itself, divided by it. -/
theorem products_and_quotients_lowest :
    ∃ i j between final, decode [0x0B, 0x01] 0x1000 = .ok i ∧ decode [0x6B, 0x11] 0x1002 = .ok j ∧
      i.mnemonic = "mul" ∧ j.mnemonic = "divl" ∧ (∀ n, wordNumber true (lowestWords.words n) = -32768) ∧
      (⟨.v2, false⟩ : Lifter).Runs pageFiveStore 0x1000 i (fun _ _ _ => true) lowestWords between ∧
      (⟨.v2, false⟩ : Lifter).Runs pageFiveStore 0x1002 j (fun _ _ _ => true) between final ∧
      between.pair = 0x40000000 ∧ final.special .mdl = 0x8000 ∧ final.special .mdh = 0 := by
  obtain ⟨i, j, hi, hj, hname, hname', hfactor⟩ : ∃ i j, decode [0x0B, 0x01] 0x1000 = .ok i ∧
      decode [0x6B, 0x11] 0x1002 = .ok j ∧ i.mnemonic = "mul" ∧ j.mnemonic = "divl" ∧
      j.operand .src = i.operand .src := ⟨_, _, rfl, rfl, rfl, rfl, rfl⟩
  obtain ⟨n, k, -, hsrc, ⟨product, hruns, -, hpair⟩, hback⟩ :=
    (products_and_quotients hi ⟨.v2, false⟩ pageFiveStore (fun _ _ _ => true) lowestWords).1 true hname
  have hne : (lowestWords.words k).val ≠ 0 := by
    show (wordOf 0x8000).val ≠ 0
    decide
  obtain ⟨between, final, hruns', hquotient, hmdl, hmdh⟩ :=
    hback _ _ j hj hname' (hfactor.trans hsrc) hne ⟨.v2, false⟩ pageFiveStore fun _ _ _ => true
  -- both say what the multiplication comes to
  obtain rfl : product = between := by
    obtain ⟨code, hcode, hrun⟩ := hruns
    obtain ⟨code', hcode', hrun'⟩ := hruns'
    cases hcode.symm.trans hcode'
    cases hrun.symm.trans hrun'
    rfl
  exact ⟨i, j, product, final, hi, hj, hname, hname', fun _ => rfl, hruns, hquotient, hpair, hmdl, hmdh⟩

end Decoding

end Lift166
