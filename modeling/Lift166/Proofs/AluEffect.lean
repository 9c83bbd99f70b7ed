import Lift166.Proofs.StackBalance
import Lift166.Proofs.Storage

/-!
# What two-operand instructions compute

The lifted code of a two-operand instruction, run on any machine, writes the result of its operation on the two operands
to the destination and nothing else, and then steps the pointer of the source where it is one that steps. The operands
count as they are before the instruction, and a pointer that is also the destination is stepped after it has been
written.
-/

namespace Lift166

open Il

/-- The result of a two-operand operation, before it is cut to the width. -/
def AluOp.value (op : AluOp) (x y : Nat) (carry : Bool) : Int :=
  match op with
  | add => x + y
  | addc => x + y + carry.toNat
  | sub | cmp => x - y
  | subc => x - y - carry.toNat
  | and => (x &&& y : Nat)
  | or => (x ||| y : Nat)
  | xor => (x ^^^ y : Nat)

/-- The mnemonics of byte operations end in a letter of their own. -/
def AluOp.mnemonic (op : AluOp) (width : Nat) : String :=
  (Operation.alu op).name ++ if width = 1 then "b" else ""

/-- The step of a source after the operation: the width is added to a pointer that is stepped up. -/
inductive Operand.SteppedUp : Operand → Machine → Machine → Prop
  | pointer {base : Register} {width : Nat} {disp : Int} {m after : Machine}
      (wrote : m.Wrote after (.kept base.cells) ((m.valueAt base.cells + width) % 65536)) :
      SteppedUp (.indirect base .postInc width disp) m after
  | other {op : Operand} (m : Machine) (unstepped : ∀ base width disp, op ≠ .indirect base .postInc width disp) :
      SteppedUp op m m

section Running

variable {m : Machine} {src : Operand}

theorem AluOp.eval_result (op : AluOp) {lhs rhs : Expr} {x y : Nat} (hx : lhs.eval m = some x)
    (hy : rhs.eval m = some y) (width : Nat) (flags : Option FlagPolicy) :
    (op.result width lhs rhs flags).eval m = some (lowBits (8 * width) (op.value x y (m.flags .c))) := by
  cases op <;> simp only [result, Expr.eval, hx, hy, Option.bind_some, Option.map_some, BinaryOp.result,
    CarryOp.result, value]

/-- The step of a source runs to its end on any machine. -/
theorem Operand.run_step (hsrc : src.Encodable) (m : Machine) (rule : FlagRule) :
    ∃ final, run rule (src.step .postInc) m = some (final, .next) ∧ src.SteppedUp m final := by
  by_cases hstepped : ∃ base width disp, src = .indirect base .postInc width disp
  · obtain ⟨base, width, disp, rfl⟩ := hstepped
    obtain ⟨hbase, hwidth, -⟩ := hsrc
    have hconst : width < 1 <<< (8 * 2) := by
      have hsize : 2 < 1 <<< (8 * 2) := by decide
      omega
    have hvalue : (Expr.quiet .add 2 (.register 2 base) (.const 2 width)).eval m =
        some ((m.valueAt base.cells + width) % 65536) := by
      have hread : (Expr.register 2 base).eval m = some (m.valueAt base.cells) := congrArg some (m.read_register hbase)
      rw [Expr.eval_quiet hread (Expr.eval_const hconst) rfl]
      exact congrArg some (lowBits_natCast (8 * 2) (m.valueAt base.cells + width))
    obtain ⟨final, hexec, hwrote⟩ : ∃ final, (Stmt.setRegister 2 base (.quiet .add 2 (.register 2 base)
        (.const 2 width))).exec rule m = some final ∧ m.Wrote final (.kept base.cells) _ :=
      exec_setReg hbase hvalue (mod_word_lt _)
    refine ⟨final, ?_, .pointer hwrote⟩
    have hstep : (Operand.indirect base .postInc width disp).step .postInc =
        [.setRegister 2 base (.quiet .add 2 (.register 2 base) (.const 2 width))] := rfl
    rw [hstep, run_of_exec rfl hexec, run_nil]
  · have hunstepped : ∀ base width disp, src ≠ .indirect base .postInc width disp := by
      intro base width disp heq
      exact hstepped ⟨base, width, disp, heq⟩
    refine ⟨m, ?_, .other m hunstepped⟩
    have hstep : src.step .postInc = [] := by
      cases src with
      | indirect base mode width disp =>
        have hmode : mode ≠ .postInc := by
          rintro rfl
          exact hunstepped base width disp rfl
        rw [step, if_neg hmode]
      | _ => rfl
    rw [hstep, run_nil]

/-- A value computed for its flags alone changes no storage. -/
theorem exec_eval {value : Expr} {x : Nat} (h : value.eval m = some x) (rule : FlagRule) :
    ∃ after, (Stmt.eval value).exec rule m = some after ∧ m.OnlyChanged after [] := by
  refine ⟨_, by rw [Stmt.exec, Stmt.effect, h, Option.map_some, Option.map_some], ?_⟩
  exact ⟨fun c _ => m.cell_updateFlags _ _ c, rfl, rfl⟩

end Running

/-! ## Rows -/

def aluLayouts : List Layout :=
  [.regReg, .regPointer, .shortImm, .shortMem, .memShort]

theorem opcodeTable_alu : ∀ entry ∈ opcodeTable, entry.family = .alu → entry.layout ∈ aluLayouts ∧
    entry.mnemonic = (entry.operation.map Operation.name).getD "" ++ if entry.width = 1 then "b" else "" := by
  decide +kernel

theorem Layout.Pair.width_eq {entry : OpcodeEntry} {layout : Layout} {dst src : Operand}
    (h : layout.Pair entry dst src) (hlayout : layout ∈ aluLayouts) :
    dst.width? = some entry.width ∧ src.width? = some entry.width := by
  cases h with
  | regReg | regPointer | regStepped | regData3 | shortByte | shortImm | shortMem | memShort => exact ⟨rfl, rfl⟩
  | _ => simp [aluLayouts] at hlayout

/-- The operands of a two-operand instruction have one width, which its mnemonic tells. -/
theorem alu_of_decode {bytes : List UInt8} {addr : Int} {i : Instruction} (h : decode bytes addr = .ok i)
    (hfamily : i.family = .alu) {op : AluOp} {dst src : Operand} (hop : i.operation = some (.alu op))
    (hdst : i.operand .dst = .ok dst) (hsrc : i.operand .src = .ok src) :
    ∃ width, (width = 1 ∨ width = 2) ∧ i.mnemonic = op.mnemonic width ∧ dst.width? = some width ∧
      src.width? = some width := by
  obtain ⟨entry, hmem, hyields⟩ := decode_yields h
  obtain ⟨hrow, -, hoperation⟩ := hyields.header
  rw [hfamily] at hrow
  obtain ⟨hlayout, hname⟩ := opcodeTable_alu entry hmem hrow.symm
  have hmnemonic := hyields.mnemonic_eq hmem (by rw [← hrow]; decide)
  refine ⟨entry.width, opcodeTable_width entry hmem, ?_, (hyields.pair_of_operands hdst hsrc).width_eq hlayout⟩
  rw [hmnemonic, hname, ← hoperation, hop]
  rfl

/-- The operands of a two-operand instruction are somewhere, and its code computes the operation on what is there. -/
theorem eval_alu {bytes : List UInt8} {addr : Int} {i : Instruction} (h : decode bytes addr = .ok i)
    (hfamily : i.family = .alu) {op : AluOp} {dst src : Operand} {width : Nat} {s : Store} {lhs rhs : Expr}
    (hop : i.operation = some (.alu op)) (hdst : i.operand .dst = .ok dst) (hsrc : i.operand .src = .ok src)
    (hwidth : dst.width? = some width) (hlhs : dst.read s addr = .ok lhs) (hrhs : src.read s addr = .ok rhs)
    (m : Machine) :
    ∃ dstSpot srcSpot, (width = 1 ∨ width = 2) ∧ i.mnemonic = op.mnemonic width ∧ src.width? = some width ∧
      dst.spot? s addr m = some dstSpot ∧ src.spot? s addr m = some srcSpot ∧
      (op.result width lhs rhs i.flags).eval m =
        some (lowBits (8 * width) (op.value (dstSpot.value m) (srcSpot.value m) (m.flags .c))) := by
  have hregular := regular_of_decode h
  obtain ⟨size, hsize, hname, hdstWidth, hsrcWidth⟩ := alu_of_decode h hfamily hop hdst hsrc
  obtain rfl : width = size := Option.some.inj (hwidth.symm.trans hdstWidth)
  obtain ⟨dstSpot, hdstSpot, hx⟩ := Operand.eval_read m (hregular.operands hdst) hlhs
  obtain ⟨srcSpot, hsrcSpot, hy⟩ := Operand.eval_read m (hregular.operands hsrc) hrhs
  exact ⟨dstSpot, srcSpot, hsize, hname, hsrcWidth, hdstSpot, hsrcSpot, op.eval_result hx hy width i.flags⟩

/-- **Two-operand instructions compute their operation.** For every machine, store and way of updating flags, the code
runs to its end. It writes the result on the operands as they were, cut to the width, to the destination, unless it
compares or the hardware fixes the destination; then it steps the source where that is a pointer to be stepped up. No
other register and no other byte of memory changes. -/
theorem alu_writes_its_result {bytes : List UInt8} {addr : Int} {i : Instruction} (h : decode bytes addr = .ok i)
    (hfamily : i.family = .alu) (l : Lifter) (s : Store) (m : Machine) (rule : FlagRule) :
    ∃ code op dst src width dstSpot srcSpot between final,
      (l.lift s i addr).answer = .ok ⟨i.length, code⟩ ∧
      i.operation = some (.alu op) ∧ (width = 1 ∨ width = 2) ∧ i.mnemonic = op.mnemonic width ∧
      i.operand .dst = .ok dst ∧ dst.width? = some width ∧ dst.spot? s addr m = some dstSpot ∧
      i.operand .src = .ok src ∧ src.width? = some width ∧ src.spot? s addr m = some srcSpot ∧
      run rule code m = some (final, .next) ∧
      (op = .cmp → m.OnlyChanged between []) ∧
      (op ≠ .cmp → m.Wrote between dstSpot
        (lowBits (8 * width) (op.value (dstSpot.value m) (srcSpot.value m) (m.flags .c)))) ∧
      src.SteppedUp between final := by
  obtain ⟨code, hcode, hemits⟩ := lift_emits h l s
  rw [hfamily] at hemits
  have hregular := regular_of_decode h
  cases hemits with
  | @compare dst src width lhs rhs hdst hsrc hop hwidth hlhs hrhs =>
    obtain ⟨dstSpot, srcSpot, hsize, hname, hsrcWidth, hdstSpot, hsrcSpot, hresult⟩ :=
      eval_alu h hfamily hop hdst hsrc hwidth hlhs hrhs m
    obtain ⟨between, hexec, honly⟩ := exec_eval hresult rule
    obtain ⟨final, hrun, hstepped⟩ := Operand.run_step (hregular.operands hsrc) between rule
    refine ⟨_, .cmp, dst, src, width, dstSpot, srcSpot, between, final, hcode, hop, hsize, hname, hdst, hwidth,
      hdstSpot, hsrc, hsrcWidth, hsrcSpot, ?_, fun _ => honly, fun hne => absurd rfl hne, hstepped⟩
    rw [run_of_exec rfl hexec, hrun]
  | @combine dst src op width lhs rhs stmt hdst hsrc hop hstored hwidth hlhs hrhs hwritten =>
    obtain ⟨dstSpot, srcSpot, hsize, hname, hsrcWidth, hdstSpot, hsrcSpot, hresult⟩ :=
      eval_alu h hfamily hop hdst hsrc hwidth hlhs hrhs m
    obtain ⟨spot, hspot, between, hexec, hwrote⟩ :=
      Operand.exec_write (hregular.operands hdst) hwidth hresult (lowBits_lt _ _) hwritten rule
    -- the destination is written where it was read, since nothing has run in between
    obtain rfl : dstSpot = spot := Option.some.inj (hdstSpot.symm.trans hspot)
    obtain ⟨final, hrun, hstepped⟩ := Operand.run_step (hregular.operands hsrc) between rule
    refine ⟨_, op, dst, src, width, dstSpot, srcSpot, between, final, hcode, hop, hsize, hname, hdst, hwidth,
      hdstSpot, hsrc, hsrcWidth, hsrcSpot, ?_, fun heq => absurd heq hstored, fun _ => hwrote, hstepped⟩
    rw [run_of_exec (Operand.write_isControl hwritten) hexec, hrun]

/-- A register that is the destination and also the pointer of the source is stepped after it has been written. A short
address is a special function register, an extended one under that override, or a general purpose register. -/
theorem alu_writes_its_result_pageFive :
    (∃ i code final, decode [0x08, 0x0C] 0x1000 = .ok i ∧ i.family = .alu ∧
      ((⟨.v2, false⟩ : Lifter).lift pageFiveStore i 0x1000).answer = .ok ⟨i.length, code⟩ ∧
      run (fun _ _ _ => true) code pageFive = some (final, .next) ∧
      final.valueAt (Register.wordAt 0).cells = 0x4321 + 2) ∧
    (∃ i code final, decode [0x06, 0x01, 0x07, 0x00] 0x1000 = .ok i ∧ i.family = .alu ∧
      ((⟨.v2, false⟩ : Lifter).lift pageFiveStore i 0x1000).answer = .ok ⟨i.length, code⟩ ∧
      run (fun _ _ _ => true) code pageFive = some (final, .next) ∧
      final.valueAt (memoryCells 2 0xFE02) = 5 + 7 ∧ final.valueAt (memoryCells 2 0xF002) = 0) ∧
    (∃ i code final, decode [0x06, 0x01, 0x07, 0x00] 0x1000 = .ok i ∧ i.family = .alu ∧
      ((⟨.v2, false⟩ : Lifter).lift (pageFiveUnder [.registerBank]) i 0x1000).answer = .ok ⟨i.length, code⟩ ∧
      run (fun _ _ _ => true) code pageFive = some (final, .next) ∧
      final.valueAt (memoryCells 2 0xFE02) = 5 ∧ final.valueAt (memoryCells 2 0xF002) = 7) ∧
    ∃ i code final, decode [0x06, 0xF3, 0x07, 0x00] 0x1000 = .ok i ∧ i.family = .alu ∧
      ((⟨.v2, false⟩ : Lifter).lift (pageFiveUnder [.registerBank]) i 0x1000).answer = .ok ⟨i.length, code⟩ ∧
      run (fun _ _ _ => true) code pageFive = some (final, .next) ∧
      final.valueAt (Register.wordAt 3).cells = 0x4321 + 7 ∧ final.valueAt (Register.wordAt 4).cells = 0x4321 := by
  have hadd : ∀ (s : Store) (c : UInt8) (cells : List Cell) {i : Instruction} {dst : Operand},
      decode [0x06, c, 0x07, 0x00] 0x1000 = .ok i → i.family = .alu → i.operation = some (.alu .add) →
      i.operand .dst = .ok dst → dst.width? = some 2 → dst.spot? s 0x1000 pageFive = some (.kept cells) →
      i.operand .src = .ok (.imm ⟨7, by decide⟩ 2) → ∃ code final,
        ((⟨.v2, false⟩ : Lifter).lift s i 0x1000).answer = .ok ⟨i.length, code⟩ ∧
        run (fun _ _ _ => true) code pageFive = some (final, .next) ∧
        final.valueAt cells = (pageFive.valueAt cells + 7) % 65536 ∧ pageFive.OnlyChanged final cells := by
    intro s c cells i dst hdecode hfamily hop hdst hwidth hspot hsrc
    obtain ⟨code, op, dst', src, width, dstSpot, srcSpot, between, final, hcode, hop', -, -, hdst', hwidth', hdstSpot,
      hsrc', -, hsrcSpot, hrun, -, hwrote, hstepped⟩ :=
      alu_writes_its_result hdecode hfamily ⟨.v2, false⟩ s pageFive fun _ _ _ => true
    cases hop.symm.trans hop'
    cases hdst.symm.trans hdst'
    cases hsrc.symm.trans hsrc'
    cases hwidth.symm.trans hwidth'
    cases hspot.symm.trans hdstSpot
    cases hsrcSpot
    obtain - | ⟨honly, hheld⟩ := hwrote (by decide)
    cases hstepped
    exact ⟨code, between, hcode, hrun, hheld.trans (lowBits_natCast 16 (pageFive.valueAt cells + 7)), honly⟩
  refine ⟨?_, ?_, ?_, ?_⟩
  · obtain ⟨i, hdecode, hfamily⟩ : ∃ i, decode [0x08, 0x0C] 0x1000 = .ok i ∧ i.family = .alu := ⟨_, rfl, rfl⟩
    obtain ⟨code, op, dst, src, width, dstSpot, srcSpot, between, final, hcode, hop, -, -, hdst, hwidth, hdstSpot, hsrc,
      -, hsrcSpot, hrun, -, hwrote, hstepped⟩ :=
      alu_writes_its_result hdecode hfamily ⟨.v2, false⟩ pageFiveStore pageFive fun _ _ _ => true
    refine ⟨i, code, final, hdecode, hfamily, hcode, hrun, ?_⟩
    -- the register is the destination, and the source is where it points before the instruction
    cases hdecode
    cases hop
    cases hdst
    cases hsrc
    cases hwidth
    cases hdstSpot
    cases hsrcSpot
    obtain - | ⟨-, hheld⟩ := hwrote (by decide)
    cases hstepped with
    | pointer stepped =>
      obtain - | ⟨-, hfinal⟩ := stepped
      have hbetween : between.valueAt (Register.wordAt 0).cells = 0x4321 := hheld.trans (by decide)
      have hadded : final.valueAt (Register.wordAt 0).cells = (between.valueAt (Register.wordAt 0).cells + 2) % 65536 :=
        hfinal
      rw [hadded, hbetween]
    | other _ unstepped => exact absurd rfl (unstepped _ _ _)
  · obtain ⟨code, final, hcode, hrun, hheld, honly⟩ :=
      hadd pageFiveStore 0x01 (memoryCells 2 0xFE02) rfl rfl rfl rfl rfl rfl rfl
    exact ⟨_, code, final, rfl, rfl, hcode, hrun, hheld, honly.valueAt_eq (by decide)⟩
  · obtain ⟨code, final, hcode, hrun, hheld, honly⟩ :=
      hadd (pageFiveUnder [.registerBank]) 0x01 (memoryCells 2 0xF002) rfl rfl rfl rfl rfl rfl rfl
    exact ⟨_, code, final, rfl, rfl, hcode, hrun, honly.valueAt_eq (by decide), hheld⟩
  · obtain ⟨code, final, hcode, hrun, hheld, honly⟩ :=
      hadd (pageFiveUnder [.registerBank]) 0xF3 (Register.wordAt 3).cells rfl rfl rfl rfl rfl rfl rfl
    exact ⟨_, code, final, rfl, rfl, hcode, hrun, hheld, honly.valueAt_eq (by decide)⟩

end Lift166
