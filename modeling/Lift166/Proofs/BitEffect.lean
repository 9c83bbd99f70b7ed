import Lift166.Proofs.SingleBits
import Lift166.Proofs.StackBalance

/-!
# What bit instructions do

An instruction on a bit gives one bit of storage the value that its mnemonic says and keeps all other bits; comparing
bits only sets flags. A jump on a bit goes to its target just when the bit has the value that it asks for, and only then
does it change the bit, if it does.
-/

namespace Lift166

open Il

/-- The bit in a slot of the instruction at an address. -/
def Instruction.bitIn? (s : Store) (addr : Int) (i : Instruction) (slot : Slot) : Option BitSpot :=
  (i.operand slot).toOption.bind (Operand.bit? s addr)

/-- The bit that an instruction writes, and what it is to become on a machine. -/
inductive Instruction.WritesBit (s : Store) (addr : Int) (m : Machine) (i : Instruction) : BitSpot → Bool → Prop
  | bset {d : BitSpot} (name : i.mnemonic = "bset") (bit : i.bitIn? s addr .bit = some d) : WritesBit s addr m i d true
  | bclr {d : BitSpot} (name : i.mnemonic = "bclr") (bit : i.bitIn? s addr .bit = some d) : WritesBit s addr m i d false
  | bmov {d b : BitSpot} (name : i.mnemonic = "bmov") (dst : i.bitIn? s addr .dst = some d)
      (src : i.bitIn? s addr .src = some b) : WritesBit s addr m i d (b.value m)
  | bmovn {d b : BitSpot} (name : i.mnemonic = "bmovn") (dst : i.bitIn? s addr .dst = some d)
      (src : i.bitIn? s addr .src = some b) : WritesBit s addr m i d (!b.value m)
  | band {d b : BitSpot} (name : i.mnemonic = "band") (dst : i.bitIn? s addr .dst = some d)
      (src : i.bitIn? s addr .src = some b) : WritesBit s addr m i d (d.value m && b.value m)
  | bor {d b : BitSpot} (name : i.mnemonic = "bor") (dst : i.bitIn? s addr .dst = some d)
      (src : i.bitIn? s addr .src = some b) : WritesBit s addr m i d (d.value m || b.value m)
  | bxor {d b : BitSpot} (name : i.mnemonic = "bxor") (dst : i.bitIn? s addr .dst = some d)
      (src : i.bitIn? s addr .src = some b) : WritesBit s addr m i d (d.value m ^^ b.value m)

/-! ## Writing a bit -/

section Running

variable {m : Machine} {s : Store} {addr dstOffset srcOffset offset : Int} {dstPos srcPos pos : Fin 16} {d b : BitSpot}

theorem assignBit_isControl (s : Store) (addr offset : Int) (pos : Fin 16) (on : Bool) :
    (assignBit s addr offset pos on).isControl = false :=
  Place.write_isControl _ _ _ _

theorem run_assignBit (h : LiteralFits 1 offset) (hb : (Operand.bit offset pos).bit? s addr = some b) (on : Bool)
    (m : Machine) (rule : FlagRule) :
    ∃ final, run rule [assignBit s addr offset pos on] m = some (final, .next) ∧ m.WroteBit final b on := by
  obtain ⟨final, hexec, hwrote, -⟩ := exec_assignBit h hb on m rule
  refine ⟨final, ?_, hwrote⟩
  rw [run_of_exec (assignBit_isControl s addr offset pos on) hexec, run_nil]

theorem run_combineBit (hdst : LiteralFits 1 dstOffset) (hd : (Operand.bit dstOffset dstPos).bit? s addr = some d)
    (hsrc : LiteralFits 1 srcOffset) (hb : (Operand.bit srcOffset srcPos).bit? s addr = some b) (kind : BitLogicKind)
    (flags : Option FlagPolicy) (m : Machine) (rule : FlagRule) :
    ∃ final, run rule [(Place.ofBitOffset s addr dstOffset).write 2 (combineBit (some (.bitLogic kind))
        ((Place.ofBitOffset s addr dstOffset).read 2) (bitValueOf s addr srcOffset srcPos) dstPos) flags] m =
      some (final, .next) ∧ m.WroteBit final d (kind.outcome (d.value m) (b.value m)) := by
  obtain ⟨w, hword, hw, hlt⟩ := eval_bitWordOf m s addr hdst
  have hvalue := eval_combineBit kind hword hlt (eval_bitValueOf hsrc hb) dstPos
  have hbits := BitLogicKind.testBit_word dstPos kind hlt (b.value m)
  obtain ⟨final, hexec, hwrote⟩ : ∃ final, ((Place.ofBitOffset s addr dstOffset).write 2 (combineBit
      (some (.bitLogic kind)) ((Place.ofBitOffset s addr dstOffset).read 2) (bitValueOf s addr srcOffset srcPos) dstPos)
      flags).exec rule m = some final ∧ m.Wrote final _ _ :=
    exec_writeBitWord m s addr hdst hvalue (kind.word_lt dstPos hlt (b.value m)) flags rule
  refine ⟨final, ?_, hwrote.bit hd ?_ ?_⟩
  · rw [run_of_exec (Place.write_isControl _ _ _ _) hexec, run_nil]
  · rw [hbits, if_pos rfl, Spot.value_bit? hd m, hw]
  · intro k hk
    rw [hbits, if_neg hk, hw]

/-! ## Comparing bits -/

theorem exec_setFlag {flag : Flag} {value : Expr} {x : Nat} (hvalue : value.eval m = some x) (hquiet : value.tally = 0)
    (rule : FlagRule) : (Stmt.setFlag flag value).exec rule m = some (m.setFlag flag (x != 0)) := by
  have hupdated : (Stmt.setFlag flag value).updated = [] := by
    rw [Stmt.updated, Stmt.tally, hquiet]
    rfl
  rw [Stmt.exec, hupdated, Stmt.effect, hvalue, Option.map_some, Option.map_some, Machine.updateFlags_nil]

theorem Machine.setFlag_onlyChanged (m : Machine) (flag : Flag) (x : Bool) : m.OnlyChanged (m.setFlag flag x) [] := by
  refine ⟨?_, rfl, rfl⟩
  intro c _
  cases c with
  | half index upper => cases upper <;> rfl
  | memory address => rfl

theorem Machine.OnlyChanged.trans {first second : Machine} {cells : List Cell} (h : m.OnlyChanged first cells)
    (h' : first.OnlyChanged second cells) : m.OnlyChanged second cells :=
  ⟨fun c hc => (h'.cell c hc).trans (h.cell c hc), h'.others.trans h.others, h'.temps.trans h.temps⟩

/-- The flags are given values one after the other. -/
def Machine.setFlags (m : Machine) (values : List (Flag × Bool)) : Machine :=
  values.foldl (fun after entry => after.setFlag entry.1 entry.2) m

/-- Assigning flags, each by an expression that has its value on every machine with the same storage. -/
theorem run_setFlags (assigned : List (Flag × Expr × Bool)) (rule : FlagRule)
    (h : ∀ entry ∈ assigned, entry.2.1.tally = 0 ∧
      ∀ after, m.OnlyChanged after [] → ∃ x, entry.2.1.eval after = some x ∧ (x != 0) = entry.2.2) :
    run rule (assigned.map fun entry => .setFlag entry.1 entry.2.1) m =
      some (m.setFlags (assigned.map fun entry => (entry.1, entry.2.2)), .next) ∧
    m.OnlyChanged (m.setFlags (assigned.map fun entry => (entry.1, entry.2.2))) [] := by
  -- a later expression is evaluated when earlier flags have been set, hence the values on all machines with the storage
  induction assigned generalizing m with
  | nil => exact ⟨rfl, fun _ _ => rfl, rfl, rfl⟩
  | cons entry assigned ih =>
    obtain ⟨flag, value, result⟩ := entry
    obtain ⟨hquiet, hvalue⟩ := h _ List.mem_cons_self
    obtain ⟨x, hx, rfl⟩ := hvalue m ⟨fun _ _ => rfl, rfl, rfl⟩
    have honly := m.setFlag_onlyChanged flag (x != 0)
    have hrest := ih (m := m.setFlag flag (x != 0)) fun entry hentry =>
      ⟨(h entry (List.mem_cons_of_mem _ hentry)).1, fun after hafter =>
        (h entry (List.mem_cons_of_mem _ hentry)).2 after (honly.trans hafter)⟩
    refine ⟨?_, honly.trans hrest.2⟩
    rw [List.map_cons, run_of_exec rfl (exec_setFlag hx hquiet rule), hrest.1]
    rfl

theorem BitSpot.value_congr {after : Machine} (h : m.OnlyChanged after []) (b : BitSpot) :
    b.value after = b.value m := by
  cases b with
  | fixed value => rfl
  | kept c index => rw [value, value, h.cell c List.not_mem_nil]

theorem eval_bits {lhs rhs : Expr} {x y : Bool} (hx : lhs.eval m = some x.toNat) (hy : rhs.eval m = some y.toNat) :
    (Expr.quiet .or 2 lhs rhs).eval m = some (x || y).toNat ∧ (Expr.quiet .and 2 lhs rhs).eval m = some (x && y).toNat ∧
      (Expr.quiet .xor 2 lhs rhs).eval m = some (x ^^ y).toNat ∧
      (Expr.quiet .equal 2 (.quiet .or 2 lhs rhs) (.const 2 0)).eval m = some (!(x || y)).toNat := by
  refine ⟨?_, ?_, ?_, ?_⟩
  all_goals
    simp only [Expr.quiet, Expr.eval, hx, hy, Option.bind_some]
    cases x <;> cases y <;> rfl

/-- Comparing two bits sets the five flags and changes no storage. -/
theorem run_compareBits (hdst : LiteralFits 1 dstOffset) (hd : (Operand.bit dstOffset dstPos).bit? s addr = some d)
    (hsrc : LiteralFits 1 srcOffset) (hb : (Operand.bit srcOffset srcPos).bit? s addr = some b) (m : Machine)
    (rule : FlagRule) :
    ∃ final, run rule (compareBits (bitValueOf s addr dstOffset dstPos) (bitValueOf s addr srcOffset srcPos)) m =
      some (final, .next) ∧ m.OnlyChanged final [] ∧ final.flags .e = false ∧
      final.flags .z = (!(b.value m || d.value m)) ∧ final.flags .v = (b.value m || d.value m) ∧
      final.flags .c = (b.value m && d.value m) ∧ final.flags .n = (b.value m ^^ d.value m) := by
  have hvalues : ∀ after, m.OnlyChanged after [] →
      (bitValueOf s addr srcOffset srcPos).eval after = some (b.value m).toNat ∧
        (bitValueOf s addr dstOffset dstPos).eval after = some (d.value m).toNat := by
    intro after hafter
    rw [← BitSpot.value_congr hafter b, ← BitSpot.value_congr hafter d]
    exact ⟨eval_bitValueOf hsrc hb, eval_bitValueOf hdst hd⟩
  have hbit : ∀ x : Bool, (x.toNat != 0) = x := by decide
  have hsrcQuiet := bitValueOf_tally s addr srcOffset srcPos
  have hdstQuiet := bitValueOf_tally s addr dstOffset dstPos
  generalize bitValueOf s addr srcOffset srcPos = src at hvalues hsrcQuiet ⊢
  generalize bitValueOf s addr dstOffset dstPos = dst at hvalues hdstQuiet ⊢
  have hrun := run_setFlags (m := m) [(.e, .const 1 0, false),
    (.z, .quiet .equal 2 (.quiet .or 2 src dst) (.const 2 0), !(b.value m || d.value m)),
    (.v, .quiet .or 2 src dst, b.value m || d.value m), (.c, .quiet .and 2 src dst, b.value m && d.value m),
    (.n, .quiet .xor 2 src dst, b.value m ^^ d.value m)] rule ?_
  · exact ⟨_, hrun.1, hrun.2, rfl, rfl, rfl, rfl, rfl⟩
  · simp only [List.forall_mem_cons, List.not_mem_nil, false_implies, implies_true, and_true]
    simp only [Expr.quiet_tally, Expr.tally, hsrcQuiet, hdstQuiet, add_zero, true_and]
    refine ⟨fun _ _ => ⟨0, rfl, rfl⟩, ?_, ?_, ?_, ?_⟩
    all_goals
      intro after hafter
      obtain ⟨hor, hand, hxor, hnor⟩ := eval_bits (hvalues after hafter).1 (hvalues after hafter).2
    · exact ⟨_, hnor, hbit _⟩
    · exact ⟨_, hor, hbit _⟩
    · exact ⟨_, hand, hbit _⟩
    · exact ⟨_, hxor, hbit _⟩

/-! ## Jumping on a bit -/

/-- The value of the bit for which a jump is taken. -/
def BitJumpKind.expects : BitJumpKind → Bool
  | jb | jbc => true
  | jnb | jnbs => false

/-- What the bit becomes when the jump is taken, if it is written. -/
def BitJumpKind.leaves? : BitJumpKind → Option Bool
  | jb | jnb => none
  | jbc => some false
  | jnbs => some true

theorem jumpsOnSet_eq (kind : BitJumpKind) : jumpsOnSet (some (.bitJump kind)) = kind.expects := by
  cases kind <;> rfl

theorem bitJumpEffect_eq (s : Store) (addr offset : Int) (pos : Fin 16) (kind : BitJumpKind) :
    bitJumpEffect s addr offset pos (some (.bitJump kind)) =
      kind.leaves?.toList.map (assignBit s addr offset pos) := by
  cases kind <;> rfl

/-- The effect of a jump on its bit, and the jump. -/
theorem run_taken (h : LiteralFits 1 offset) (hb : (Operand.bit offset pos).bit? s addr = some b) (kind : BitJumpKind)
    {dest : Expr} {target : Nat} (hdest : ∀ after, dest.eval after = some target) (rest : List Stmt) (m : Machine)
    (rule : FlagRule) :
    ∃ final, run rule (bitJumpEffect s addr offset pos (some (.bitJump kind)) ++ .jump dest :: rest) m =
      some (final, .jump target) ∧ final.flags = m.flags ∧ (kind.leaves? = none → final = m) ∧
      ∀ x, kind.leaves? = some x → m.WroteBit final b x := by
  have hjump : ∀ after, run rule (.jump dest :: rest) after = some (after, .jump target) := by
    intro after
    rw [run, runFrom, hdest, Option.map_some]
  rw [bitJumpEffect_eq]
  cases hleaves : kind.leaves? with
  | none =>
    refine ⟨m, hjump m, rfl, fun _ => rfl, ?_⟩
    rintro _ ⟨⟩
  | some x =>
    obtain ⟨final, hexec, hwrote, hflags⟩ := exec_assignBit h hb x m rule
    refine ⟨final, ?_, hflags, ?_, ?_⟩
    · exact (run_of_exec (assignBit_isControl s addr offset pos x) hexec _).trans (hjump final)
    · rintro ⟨⟩
    · rintro _ ⟨⟩
      exact hwrote

/-- The whole code of a jump on a bit: it jumps where the bit is as expected, and falls through elsewhere. -/
theorem run_bitJump (h : LiteralFits 1 offset) (hb : (Operand.bit offset pos).bit? s addr = some b) (kind : BitJumpKind)
    {dest : Expr} {target : Nat} (hdest : ∀ after, dest.eval after = some target) {code : List Stmt}
    (hcode : code = .ifElse (.quiet .equal 2 (.quiet .and 2 (bitWordOf s addr offset) (.const 2 (bitMask pos)))
        (.const 2 (if kind.expects then bitMask pos else 0 : Nat))) 0 1 :: .label 0
      :: (bitJumpEffect s addr offset pos (some (.bitJump kind)) ++ [.jump dest, .label 1]))
    (m : Machine) (rule : FlagRule) :
    (b.value m = kind.expects → ∃ final, run rule code m = some (final, .jump target) ∧ final.flags = m.flags ∧
      (kind.leaves? = none → final = m) ∧ ∀ x, kind.leaves? = some x → m.WroteBit final b x) ∧
    (b.value m ≠ kind.expects → run rule code m = some (m, .next)) := by
  -- the branch that is not taken skips the effect and the jump to the label behind them
  have hunmarked : ∀ stmt ∈ bitJumpEffect s addr offset pos (some (.bitJump kind)) ++ [.jump dest],
      ∀ label, stmt ≠ .label label := by
    rintro stmt hstmt label rfl
    rw [bitJumpEffect_eq, List.mem_append, List.mem_map, List.mem_singleton] at hstmt
    rcases hstmt with ⟨on, -, hassign⟩ | hjump
    · have hcontrol := assignBit_isControl s addr offset pos on
      rw [hassign] at hcontrol
      cases hcontrol
    · cases hjump
  have hbranch := run_branch (eval_bitTest (m := m) h hb kind.expects) hunmarked rule
  rw [List.append_assoc] at hbranch
  subst hcode
  constructor
  · intro htaken
    rw [if_pos htaken, if_neg Nat.one_ne_zero] at hbranch
    obtain ⟨final, hrun, heffect⟩ := run_taken h hb kind hdest [.label 1] m rule
    exact ⟨final, hbranch.trans hrun, heffect⟩
  · intro hskipped
    rw [if_neg hskipped, if_pos rfl] at hbranch
    exact hbranch

end Running

/-! ## Mnemonics -/

/-- The mnemonics of bit instructions tell their operations. -/
theorem opcodeTable_bits : ∀ entry ∈ opcodeTable,
    (entry.mnemonic = "bset" → entry.family = .bit ∧ entry.operation = some .set) ∧
    (entry.mnemonic = "bclr" → entry.family = .bit ∧ entry.operation = some .clear) ∧
    (∀ kind ∈ [BitLogicKind.bcmp, .bmovn, .bmov, .bor, .band, .bxor],
      entry.mnemonic = (Operation.bitLogic kind).name →
        entry.family = .bitLogic ∧ entry.operation = some (.bitLogic kind)) ∧
    ∀ kind ∈ [BitJumpKind.jb, .jnb, .jbc, .jnbs], entry.mnemonic = (Operation.bitJump kind).name →
      entry.family = .bitJump ∧ entry.operation = some (.bitJump kind) := by
  decide +kernel

section Decoding

variable {bytes : List UInt8} {addr : Int} {i : Instruction}

/-- An instruction whose mnemonic is that of no extension has the mnemonic of its row. -/
theorem row_of_mnemonic (h : decode bytes addr = .ok i)
    (hname : i.mnemonic ∉ ["atomic", "extr", "exts", "extp", "extsr", "extpr"]) :
    ∃ entry ∈ opcodeTable, i.mnemonic = entry.mnemonic ∧ i.family = entry.family ∧ i.operation = entry.operation := by
  obtain ⟨entry, hmem, hyields⟩ := decode_yields h
  obtain ⟨hfamily, -, hoperation⟩ := hyields.header
  refine ⟨entry, hmem, ?_, hfamily, hoperation⟩
  rcases hyields.mnemonic_cases with hrow | ⟨ext, hencoded, hkind⟩
  · exact hrow
  · rw [hkind] at hname
    exact absurd (List.mem_map_of_mem hencoded.kind_mem) hname

theorem bit_of_mnemonic (h : decode bytes addr = .ok i) (hname : i.mnemonic = "bset" ∨ i.mnemonic = "bclr") :
    i.family = .bit ∧ (i.mnemonic = "bset" → i.operation = some .set) ∧
      (i.mnemonic = "bclr" → i.operation = some .clear) := by
  have hplain : i.mnemonic ∉ ["atomic", "extr", "exts", "extp", "extsr", "extpr"] := by
    rcases hname with hname | hname
    · rw [hname]
      decide
    · rw [hname]
      decide
  obtain ⟨entry, hmem, hrow, hfamily, hoperation⟩ := row_of_mnemonic h hplain
  obtain ⟨hset, hclear, -, -⟩ := opcodeTable_bits entry hmem
  rw [hrow] at hname ⊢
  rw [hfamily, hoperation]
  refine ⟨?_, fun heq => (hset heq).2, fun heq => (hclear heq).2⟩
  rcases hname with heq | heq
  · exact (hset heq).1
  · exact (hclear heq).1

theorem bitLogic_of_mnemonic (h : decode bytes addr = .ok i) {kind : BitLogicKind}
    (hname : i.mnemonic = (Operation.bitLogic kind).name) :
    i.family = .bitLogic ∧ i.operation = some (.bitLogic kind) := by
  obtain ⟨entry, hmem, hrow, hfamily, hoperation⟩ := row_of_mnemonic h (by rw [hname]; cases kind <;> decide)
  obtain ⟨-, -, hlogic, -⟩ := opcodeTable_bits entry hmem
  rw [hfamily, hoperation]
  exact hlogic kind (by cases kind <;> decide) (hrow.symm.trans hname)

theorem bitJump_of_mnemonic (h : decode bytes addr = .ok i) {kind : BitJumpKind}
    (hname : i.mnemonic = (Operation.bitJump kind).name) :
    i.family = .bitJump ∧ i.operation = some (.bitJump kind) := by
  obtain ⟨entry, hmem, hrow, hfamily, hoperation⟩ := row_of_mnemonic h (by rw [hname]; cases kind <;> decide)
  obtain ⟨-, -, -, hjump⟩ := opcodeTable_bits entry hmem
  rw [hfamily, hoperation]
  exact hjump kind (by cases kind <;> decide) (hrow.symm.trans hname)

/-! ## Lifted code -/

theorem Instruction.bitIn?_eq {slot : Slot} {op : Operand} (hop : i.operand slot = .ok op) (s : Store) :
    i.bitIn? s addr slot = op.bit? s addr := by
  rw [bitIn?, hop]
  rfl

/-- Setting or clearing, from decoding to the end of the run. -/
theorem single_bit_run (h : decode bytes addr = .ok i) (hfamily : i.family = .bit) (l : Lifter) (s : Store)
    (m : Machine) (rule : FlagRule) :
    ∃ code d final, (l.lift s i addr).answer = .ok ⟨i.length, code⟩ ∧ i.bitIn? s addr .bit = some d ∧
      run rule code m = some (final, .next) ∧ m.WroteBit final d (i.operation = some .set) := by
  obtain ⟨code, hcode, hemits⟩ := lift_emits h l s
  rw [hfamily] at hemits
  cases hemits with
  | bit bitOperand =>
    have hfits := (regular_of_decode h).operands bitOperand
    obtain ⟨d, hd⟩ := Operand.exists_bit s addr _ _
    obtain ⟨final, hrun, hwrote⟩ := run_assignBit hfits hd (i.operation = some .set) m rule
    exact ⟨_, d, final, hcode, (i.bitIn?_eq bitOperand s).trans hd, hrun, hwrote⟩

/-- Moving and combining, from decoding to the end of the run. -/
theorem two_bit_run (h : decode bytes addr = .ok i) {kind : BitLogicKind}
    (hname : i.mnemonic = (Operation.bitLogic kind).name) (hne : kind ≠ .bcmp) (l : Lifter) (s : Store) (m : Machine)
    (rule : FlagRule) :
    ∃ code d b final, (l.lift s i addr).answer = .ok ⟨i.length, code⟩ ∧ i.bitIn? s addr .dst = some d ∧
      i.bitIn? s addr .src = some b ∧ run rule code m = some (final, .next) ∧
      m.WroteBit final d (kind.outcome (d.value m) (b.value m)) := by
  obtain ⟨hfamily, hop⟩ := bitLogic_of_mnemonic h hname
  obtain ⟨code, hcode, hemits⟩ := lift_emits h l s
  rw [hfamily] at hemits
  cases hemits with
  | bitCompare dstOperand srcOperand operation =>
    rw [hop] at operation
    cases operation
    exact absurd rfl hne
  | bitCombine dstOperand srcOperand operation =>
    have hdst := (regular_of_decode h).operands dstOperand
    have hsrc := (regular_of_decode h).operands srcOperand
    obtain ⟨d, hd⟩ := Operand.exists_bit s addr _ _
    obtain ⟨b, hb⟩ := Operand.exists_bit s addr _ _
    obtain ⟨final, hrun, hwrote⟩ := run_combineBit hdst hd hsrc hb kind i.flags m rule
    rw [hop] at hcode
    exact ⟨_, d, b, final, hcode, (i.bitIn?_eq dstOperand s).trans hd, (i.bitIn?_eq srcOperand s).trans hb, hrun,
      hwrote⟩

theorem Instruction.writesBit_of_kind {s : Store} {m : Machine} {kind : BitLogicKind} {d b : BitSpot}
    (hname : i.mnemonic = (Operation.bitLogic kind).name) (hne : kind ≠ .bcmp) (hd : i.bitIn? s addr .dst = some d)
    (hb : i.bitIn? s addr .src = some b) : i.WritesBit s addr m d (kind.outcome (d.value m) (b.value m)) := by
  cases kind with
  | bcmp => exact absurd rfl hne
  | bmov => exact .bmov hname hd hb
  | bmovn => exact .bmovn hname hd hb
  | band => exact .band hname hd hb
  | bor => exact .bor hname hd hb
  | bxor => exact .bxor hname hd hb

/-- **Bit instructions change one bit.** For every machine, store and way of updating flags, the code of an instruction
that writes a bit runs to its end and gives that bit its value on the bits as they were; all other bits of the registers
and of memory stay, and everything does where the hardware fixes the word. The code of a comparison changes the flags
only, and sets all five. -/
theorem bit_instructions_write_one_bit (h : decode bytes addr = .ok i) (l : Lifter) (s : Store) (m : Machine)
    (rule : FlagRule) :
    (i.mnemonic ∈ ["bset", "bclr", "bmov", "bmovn", "band", "bor", "bxor"] → ∃ code d x final,
      (l.lift s i addr).answer = .ok ⟨i.length, code⟩ ∧ run rule code m = some (final, .next) ∧
      i.WritesBit s addr m d x ∧ m.WroteBit final d x) ∧
    (i.mnemonic = "bcmp" → ∃ code d b final,
      (l.lift s i addr).answer = .ok ⟨i.length, code⟩ ∧ run rule code m = some (final, .next) ∧
      i.bitIn? s addr .dst = some d ∧ i.bitIn? s addr .src = some b ∧ m.OnlyChanged final [] ∧
      final.flags .e = false ∧ final.flags .z = (!(b.value m || d.value m)) ∧
      final.flags .v = (b.value m || d.value m) ∧ final.flags .c = (b.value m && d.value m) ∧
      final.flags .n = (b.value m ^^ d.value m)) := by
  constructor
  · intro hname
    have hlogic : ∀ kind, i.mnemonic = (Operation.bitLogic kind).name → kind ≠ .bcmp → ∃ code d x final,
        (l.lift s i addr).answer = .ok ⟨i.length, code⟩ ∧ run rule code m = some (final, .next) ∧
        i.WritesBit s addr m d x ∧ m.WroteBit final d x := by
      intro kind hkind hne
      obtain ⟨code, d, b, final, hcode, hd, hb, hrun, hwrote⟩ := two_bit_run h hkind hne l s m rule
      exact ⟨code, d, _, final, hcode, hrun, i.writesBit_of_kind hkind hne hd hb, hwrote⟩
    simp only [List.mem_cons, List.not_mem_nil, or_false] at hname
    rcases hname with hname | hname | hname | hname | hname | hname | hname
    · obtain ⟨hfamily, hset, -⟩ := bit_of_mnemonic h (.inl hname)
      obtain ⟨code, d, final, hcode, hd, hrun, hwrote⟩ := single_bit_run h hfamily l s m rule
      rw [hset hname] at hwrote
      exact ⟨code, d, true, final, hcode, hrun, .bset hname hd, hwrote⟩
    · obtain ⟨hfamily, -, hclear⟩ := bit_of_mnemonic h (.inr hname)
      obtain ⟨code, d, final, hcode, hd, hrun, hwrote⟩ := single_bit_run h hfamily l s m rule
      rw [hclear hname] at hwrote
      exact ⟨code, d, false, final, hcode, hrun, .bclr hname hd, hwrote⟩
    · exact hlogic .bmov hname (by decide)
    · exact hlogic .bmovn hname (by decide)
    · exact hlogic .band hname (by decide)
    · exact hlogic .bor hname (by decide)
    · exact hlogic .bxor hname (by decide)
  · intro hname
    have hkind : i.mnemonic = (Operation.bitLogic .bcmp).name := hname
    obtain ⟨hfamily, hop⟩ := bitLogic_of_mnemonic h hkind
    obtain ⟨code, hcode, hemits⟩ := lift_emits h l s
    rw [hfamily] at hemits
    cases hemits with
    | bitCombine dstOperand srcOperand operation => exact absurd hop operation
    | bitCompare dstOperand srcOperand operation =>
      have hdst := (regular_of_decode h).operands dstOperand
      have hsrc := (regular_of_decode h).operands srcOperand
      obtain ⟨d, hd⟩ := Operand.exists_bit s addr _ _
      obtain ⟨b, hb⟩ := Operand.exists_bit s addr _ _
      obtain ⟨final, hrun, hflags⟩ := run_compareBits hdst hd hsrc hb m rule
      exact ⟨_, d, b, final, hcode, hrun, (i.bitIn?_eq dstOperand s).trans hd, (i.bitIn?_eq srcOperand s).trans hb,
        hflags⟩

/-- Combining a bit with itself, in a register, and comparing it with itself; and setting a bit of a word of memory, of
a special function register, and of an extended one. -/
theorem bit_instructions_write_one_bit_pageFive :
    (∃ i code d x final, decode [0x7A, 0xF1, 0xF1, 0x33] 0x1000 = .ok i ∧ i.mnemonic = "bxor" ∧
      ((⟨.v2, false⟩ : Lifter).lift pageFiveStore i 0x1000).answer = .ok ⟨i.length, code⟩ ∧
      run (fun _ _ _ => true) code pageFive = some (final, .next) ∧ i.WritesBit pageFiveStore 0x1000 pageFive d x ∧
      pageFive.WroteBit final d x) ∧
    (∃ i code final, decode [0x2A, 0xF1, 0xF1, 0x33] 0x1000 = .ok i ∧ i.mnemonic = "bcmp" ∧
      ((⟨.v2, false⟩ : Lifter).lift pageFiveStore i 0x1000).answer = .ok ⟨i.length, code⟩ ∧
      run (fun _ _ _ => true) code pageFive = some (final, .next) ∧ pageFive.OnlyChanged final [] ∧
      final.flags .e = false) ∧
    (∃ i code final, decode [0x3F, 0x00] 0x1000 = .ok i ∧ i.mnemonic = "bset" ∧
      ((⟨.v2, false⟩ : Lifter).lift pageFiveStore i 0x1000).answer = .ok ⟨i.length, code⟩ ∧
      run (fun _ _ _ => true) code pageFive = some (final, .next) ∧
      pageFive.WroteBit final (.kept (.memory 0xFD00) 3) true) ∧
    (∃ i code final, decode [0xBF, 0x88] 0x1000 = .ok i ∧ i.mnemonic = "bset" ∧
      ((⟨.v2, false⟩ : Lifter).lift pageFiveStore i 0x1000).answer = .ok ⟨i.length, code⟩ ∧
      run (fun _ _ _ => true) code pageFive = some (final, .next) ∧
      pageFive.WroteBit final (.kept (.memory 0xFF11) 3) true) ∧
    ∃ i code final, decode [0xBF, 0x88] 0x1000 = .ok i ∧ i.mnemonic = "bset" ∧
      ((⟨.v2, false⟩ : Lifter).lift (pageFiveUnder [.registerBank]) i 0x1000).answer = .ok ⟨i.length, code⟩ ∧
      run (fun _ _ _ => true) code pageFive = some (final, .next) ∧
      pageFive.WroteBit final (.kept (.memory 0xF111) 3) true := by
  have hset : ∀ (s : Store) (bytes : List UInt8) (b : BitSpot) {i : Instruction}, decode bytes 0x1000 = .ok i →
      i.mnemonic = "bset" → i.bitIn? s 0x1000 .bit = some b → ∃ code final,
        ((⟨.v2, false⟩ : Lifter).lift s i 0x1000).answer = .ok ⟨i.length, code⟩ ∧
        run (fun _ _ _ => true) code pageFive = some (final, .next) ∧ pageFive.WroteBit final b true := by
    intro s bytes b i hdecode hname hbit
    obtain ⟨code, d, x, final, hcode, hrun, hwrites, hwrote⟩ :=
      (bit_instructions_write_one_bit hdecode ⟨.v2, false⟩ s pageFive fun _ _ _ => true).1 (by rw [hname]; decide)
    cases hwrites with
    | bset _ hd =>
      cases hbit.symm.trans hd
      exact ⟨code, final, hcode, hrun, hwrote⟩
    | _ hother => exact absurd (hname.symm.trans hother) (by decide)
  refine ⟨?_, ?_, ?_, ?_, ?_⟩
  · obtain ⟨i, hdecode, hname⟩ : ∃ i, decode [0x7A, 0xF1, 0xF1, 0x33] 0x1000 = .ok i ∧ i.mnemonic = "bxor" :=
      ⟨_, rfl, rfl⟩
    obtain ⟨code, d, x, final, heffect⟩ := (bit_instructions_write_one_bit hdecode ⟨.v2, false⟩ pageFiveStore pageFive
      fun _ _ _ => true).1 (by rw [hname]; decide)
    exact ⟨i, code, d, x, final, hdecode, hname, heffect⟩
  · obtain ⟨i, hdecode, hname⟩ : ∃ i, decode [0x2A, 0xF1, 0xF1, 0x33] 0x1000 = .ok i ∧ i.mnemonic = "bcmp" :=
      ⟨_, rfl, rfl⟩
    obtain ⟨code, d, b, final, hcode, hrun, -, -, honly, he, -⟩ := (bit_instructions_write_one_bit hdecode ⟨.v2, false⟩
      pageFiveStore pageFive fun _ _ _ => true).2 hname
    exact ⟨i, code, final, hdecode, hname, hcode, hrun, honly, he⟩
  · obtain ⟨code, final, hrun⟩ := hset pageFiveStore [0x3F, 0x00] (.kept (.memory 0xFD00) 3) rfl rfl rfl
    exact ⟨_, code, final, rfl, rfl, hrun⟩
  · obtain ⟨code, final, hrun⟩ := hset pageFiveStore [0xBF, 0x88] (.kept (.memory 0xFF11) 3) rfl rfl rfl
    exact ⟨_, code, final, rfl, rfl, hrun⟩
  · obtain ⟨code, final, hrun⟩ :=
      hset (pageFiveUnder [.registerBank]) [0xBF, 0x88] (.kept (.memory 0xF111) 3) rfl rfl rfl
    exact ⟨_, code, final, rfl, rfl, hrun⟩

/-- **Jumps on a bit test and update that bit.** For every machine, store and way of updating flags: where the bit has
the value that the jump asks for, the run ends with the jump to the decoded target, and it has changed nothing but the
bit, if the instruction clears or sets it; otherwise the run falls through and has changed nothing. -/
theorem bit_jumps_test_and_update (h : decode bytes addr = .ok i) (hname : i.mnemonic ∈ ["jb", "jbc", "jnb", "jnbs"])
    (l : Lifter) (s : Store) (m : Machine) (rule : FlagRule) :
    ∃ (code : List Stmt) (b : BitSpot) (target : Nat), (l.lift s i addr).answer = .ok ⟨i.length, code⟩ ∧
      i.bitIn? s addr .bit = some b ∧ i.operand .target = .ok (.target target) ∧
      (b.value m = decide (i.mnemonic ∈ ["jb", "jbc"]) → ∃ final, run rule code m = some (final, .jump target) ∧
        final.flags = m.flags ∧ (i.mnemonic ∈ ["jb", "jnb"] → final = m) ∧
        (i.mnemonic = "jbc" → m.WroteBit final b false) ∧ (i.mnemonic = "jnbs" → m.WroteBit final b true)) ∧
      (b.value m ≠ decide (i.mnemonic ∈ ["jb", "jbc"]) → run rule code m = some (m, .next)) := by
  obtain ⟨kind, hkind⟩ : ∃ kind, i.mnemonic = (Operation.bitJump kind).name := by
    simp only [List.mem_cons, List.not_mem_nil, or_false] at hname
    rcases hname with hname | hname | hname | hname
    · exact ⟨.jb, hname⟩
    · exact ⟨.jbc, hname⟩
    · exact ⟨.jnb, hname⟩
    · exact ⟨.jnbs, hname⟩
  obtain ⟨hfamily, hop⟩ := bitJump_of_mnemonic h hkind
  obtain ⟨code, hcode, hemits⟩ := lift_emits h l s
  rw [hfamily] at hemits
  cases hemits with
  | @bitJump offset address pos expected bitOperand targetOperand tested =>
    have hfits := (regular_of_decode h).operands bitOperand
    have htarget := (regular_of_decode h).operands targetOperand
    obtain ⟨b, hb⟩ := Operand.exists_bit s addr offset pos
    obtain ⟨target, rfl⟩ := Int.eq_ofNat_of_zero_le htarget.1
    have hdest : ∀ after, (Expr.const 3 target).eval after = some target := fun _ =>
      Expr.eval_const (Int.ofNat_lt.1 htarget.2)
    -- the mnemonic says what the kind does
    have hexpects : decide (i.mnemonic ∈ ["jb", "jbc"]) = kind.expects := by
      rw [hkind]
      cases kind <;> decide
    have hnone : i.mnemonic ∈ ["jb", "jnb"] → kind.leaves? = none := by
      rw [hkind]
      cases kind <;> decide
    have hclear : i.mnemonic = "jbc" → kind.leaves? = some false := by
      rw [hkind]
      cases kind <;> decide
    have hset : i.mnemonic = "jnbs" → kind.leaves? = some true := by
      rw [hkind]
      cases kind <;> decide
    rw [hop] at hcode tested
    rw [jumpsOnSet_eq] at tested
    subst tested
    obtain ⟨htaken, hskipped⟩ := run_bitJump hfits hb kind hdest rfl m rule
    refine ⟨_, b, target, hcode, (i.bitIn?_eq bitOperand s).trans hb, targetOperand, ?_, ?_⟩
    · intro hbit
      obtain ⟨final, hrun, hflags, hkept, hwrote⟩ := htaken (hbit.trans hexpects)
      exact ⟨final, hrun, hflags, fun hn => hkept (hnone hn), fun hn => hwrote _ (hclear hn),
        fun hn => hwrote _ (hset hn)⟩
    · intro hbit
      exact hskipped fun heq => hbit (heq.trans hexpects.symm)

/-- A jump that clears the lowest bit of a register, which is set; and jumps that set a bit of a word of memory, of a
special function register, and of an extended one, where it is clear. -/
theorem bit_jumps_test_and_update_pageFive :
    (∃ (i : Instruction) (code : List Stmt) (b : BitSpot) (target : Nat) (final : Machine),
      decode [0xAA, 0xF1, 0x04, 0x00] 0x1000 = .ok i ∧ i.mnemonic = "jbc" ∧
      ((⟨.v2, false⟩ : Lifter).lift pageFiveStore i 0x1000).answer = .ok ⟨i.length, code⟩ ∧
      i.bitIn? pageFiveStore 0x1000 .bit = some b ∧ b.value pageFive = true ∧ i.operand .target = .ok (.target target) ∧
      run (fun _ _ _ => true) code pageFive = some (final, .jump target) ∧ pageFive.WroteBit final b false) ∧
    (∃ (i : Instruction) (code : List Stmt) (target : Nat) (final : Machine),
      decode [0xBA, 0x00, 0x04, 0x30] 0x1000 = .ok i ∧ i.mnemonic = "jnbs" ∧
      ((⟨.v2, false⟩ : Lifter).lift pageFiveStore i 0x1000).answer = .ok ⟨i.length, code⟩ ∧
      i.operand .target = .ok (.target target) ∧
      run (fun _ _ _ => true) code pageFive = some (final, .jump target) ∧
      pageFive.WroteBit final (.kept (.memory 0xFD00) 3) true) ∧
    (∃ (i : Instruction) (code : List Stmt) (target : Nat) (final : Machine),
      decode [0xBA, 0x88, 0x04, 0xB0] 0x1000 = .ok i ∧ i.mnemonic = "jnbs" ∧
      ((⟨.v2, false⟩ : Lifter).lift pageFiveStore i 0x1000).answer = .ok ⟨i.length, code⟩ ∧
      i.operand .target = .ok (.target target) ∧
      run (fun _ _ _ => true) code pageFive = some (final, .jump target) ∧
      pageFive.WroteBit final (.kept (.memory 0xFF11) 3) true) ∧
    ∃ (i : Instruction) (code : List Stmt) (target : Nat) (final : Machine),
      decode [0xBA, 0x88, 0x04, 0xB0] 0x1000 = .ok i ∧ i.mnemonic = "jnbs" ∧
      ((⟨.v2, false⟩ : Lifter).lift (pageFiveUnder [.registerBank]) i 0x1000).answer = .ok ⟨i.length, code⟩ ∧
      i.operand .target = .ok (.target target) ∧
      run (fun _ _ _ => true) code pageFive = some (final, .jump target) ∧
      pageFive.WroteBit final (.kept (.memory 0xF111) 3) true := by
  have hset : ∀ (s : Store) (bytes : List UInt8) (b : BitSpot), b.value pageFive = false → ∀ {i : Instruction},
      decode bytes 0x1000 = .ok i → i.mnemonic = "jnbs" → i.bitIn? s 0x1000 .bit = some b →
      ∃ (code : List Stmt) (target : Nat) (final : Machine),
        ((⟨.v2, false⟩ : Lifter).lift s i 0x1000).answer = .ok ⟨i.length, code⟩ ∧
        i.operand .target = .ok (.target target) ∧
        run (fun _ _ _ => true) code pageFive = some (final, .jump target) ∧ pageFive.WroteBit final b true := by
    intro s bytes b hclear i hdecode hname hbit
    obtain ⟨code, b', target, hcode, hb, htarget, htaken, -⟩ :=
      bit_jumps_test_and_update hdecode (by rw [hname]; decide) ⟨.v2, false⟩ s pageFive fun _ _ _ => true
    cases hbit.symm.trans hb
    obtain ⟨final, hrun, -, -, -, hset⟩ := htaken (by rw [hclear, hname]; rfl)
    exact ⟨code, target, final, hcode, htarget, hrun, hset hname⟩
  refine ⟨?_, ?_, ?_, ?_⟩
  · obtain ⟨i, hdecode, hname⟩ : ∃ i, decode [0xAA, 0xF1, 0x04, 0x00] 0x1000 = .ok i ∧ i.mnemonic = "jbc" :=
      ⟨_, rfl, rfl⟩
    obtain ⟨code, b, target, hcode, hb, htarget, htaken, -⟩ :=
      bit_jumps_test_and_update hdecode (by rw [hname]; decide) ⟨.v2, false⟩ pageFiveStore pageFive fun _ _ _ => true
    have hset : b.value pageFive = true := by
      cases hdecode
      cases hb
      rfl
    obtain ⟨final, hrun, -, -, hclear, -⟩ := htaken (by rw [hset, hname]; rfl)
    exact ⟨i, code, b, target, final, hdecode, hname, hcode, hb, hset, htarget, hrun, hclear hname⟩
  · obtain ⟨code, target, final, hrun⟩ :=
      hset pageFiveStore [0xBA, 0x00, 0x04, 0x30] (.kept (.memory 0xFD00) 3) rfl rfl rfl rfl
    exact ⟨_, code, target, final, rfl, rfl, hrun⟩
  · obtain ⟨code, target, final, hrun⟩ :=
      hset pageFiveStore [0xBA, 0x88, 0x04, 0xB0] (.kept (.memory 0xFF11) 3) rfl rfl rfl rfl
    exact ⟨_, code, target, final, rfl, rfl, hrun⟩
  · obtain ⟨code, target, final, hrun⟩ :=
      hset (pageFiveUnder [.registerBank]) [0xBA, 0x88, 0x04, 0xB0] (.kept (.memory 0xF111) 3) rfl rfl rfl rfl
    exact ⟨_, code, target, final, rfl, rfl, hrun⟩

end Decoding

end Lift166
