import Lift166.Proofs.Naming
import Lift166.Proofs.SoundCode

/-!
# The words that the hardware fixes

`ZEROS` and `ONES` are reached by a short address, as the word of a bit, and by a memory operand. Lifting knows them by
their short addresses and bit offsets: a read becomes the constant and a write is discarded. A memory operand is lifted
as a load or a store wherever it lies, so it is the one form that touches the memory of these words.
-/

namespace Lift166

open Il

/-! ## Places -/

theorem SpecialRegister.fixedWord?_address (r : SpecialRegister) : fixedWord? r.address = r.constant? := by
  cases r <;> rfl

theorem Place.read_fixed {r : SpecialRegister} {c : Nat} (h : r.constant? = some c) (width : Nat) :
    (Place.sfr r.address).read width = .const width (c % 1 <<< (8 * width) : Nat) := by
  simp only [read, r.fixedWord?_address, h]

theorem Place.isFixed_special {r : SpecialRegister} {c : Nat} (h : r.constant? = some c) :
    (Place.sfr r.address).isFixed = true := by
  rw [isFixed_sfr, r.fixedWord?_address, h]
  rfl

theorem Place.write_fixed {place : Place} (h : place.isFixed = true) (width : Nat) (value : Expr)
    (flags : Option FlagPolicy) : place.write width value flags = .nop := by
  cases place with
  | gpr r => cases h
  | sfr address =>
    rw [isFixed_sfr] at h
    obtain ⟨word, hword⟩ := Option.isSome_iff_exists.1 h
    simp only [write, hword]

section Access

variable {s : Store} {addr : Int} {op : Operand} {r : SpecialRegister} {c : Nat}

/-- The constant that stands for an operand. -/
def Operand.fixedValue (op : Operand) (c : Nat) : Expr :=
  let width := op.width?.getD 2
  .const width (c % 1 <<< (8 * width) : Nat)

/-- An operand that stands for a fixed word is a memory operand, or one whose accesses are dropped. -/
theorem Operand.isDropped_of_fixed (hplace : op.place? s addr = some (.sfr r.address)) (h : r.constant? = some c) :
    op.isDropped s addr = true ∨ ∃ raw width, op = .mem raw width := by
  have hfixed := Place.isFixed_special h
  cases op
  case mem raw width => exact .inr ⟨raw, width, rfl⟩
  case short code width =>
    rw [← Option.some.inj hplace, ← isDropped_short] at hfixed
    exact .inl hfixed
  case bit offset pos =>
    rw [← Option.some.inj hplace, ← isDropped_bit s addr offset pos] at hfixed
    exact .inl hfixed
  all_goals cases hplace

theorem Operand.read_fixed {e : Expr} (hread : op.read s addr = .ok e)
    (hplace : op.place? s addr = some (.sfr r.address)) (hdropped : op.isDropped s addr = true)
    (h : r.constant? = some c) : e = op.fixedValue c := by
  cases op
  all_goals cases hread
  case short code width => rw [Option.some.inj hplace, Place.read_fixed h]; rfl
  all_goals cases hdropped

theorem bitWordOf_fixed {offset : Int} {pos : Fin 16}
    (hplace : (Operand.bit offset pos).place? s addr = some (.sfr r.address)) (h : r.constant? = some c) :
    bitWordOf s addr offset = (Operand.bit offset pos).fixedValue c := by
  rw [bitWordOf, Option.some.inj hplace, Place.read_fixed h]
  rfl

theorem Operand.write_dropped {value : Expr} {flags : Option FlagPolicy} {stmt : Stmt}
    (h : op.write s addr value flags = .ok stmt) (hdropped : op.isDropped s addr = true) : stmt = .nop := by
  cases op
  all_goals cases h
  case short code width =>
    rw [isDropped_short] at hdropped
    exact Place.write_fixed hdropped _ _ _
  all_goals cases hdropped

theorem Place.write_nodes {place : Place} {value node : Expr} (hkept : place.isFixed = false)
    (hnode : node ∈ value.nodes) (width : Nat) (flags : Option FlagPolicy) :
    node ∈ (place.write width value flags).nodes := by
  cases place with
  | gpr r => simpa [write, Stmt.nodes, Stmt.values] using hnode
  | sfr address =>
    rw [isFixed_sfr, Option.isSome_eq_false_iff, Option.isNone_iff_eq_none] at hkept
    simp only [write, hkept, Stmt.nodes, Stmt.values, List.flatMap_cons, List.mem_append]
    exact .inr (.inl hnode)

/-- A write that is not dropped holds the value. -/
theorem Operand.write_nodes {value node : Expr} {flags : Option FlagPolicy} {stmt : Stmt}
    (h : op.write s addr value flags = .ok stmt) (hkept : op.isDropped s addr = false) (hnode : node ∈ value.nodes) :
    node ∈ stmt.nodes := by
  cases op
  all_goals cases h
  case short code width =>
    rw [isDropped_short] at hkept
    exact Place.write_nodes hkept hnode width flags
  all_goals simp [Stmt.nodes, Stmt.values, hnode]

end Access

/-! ## Writes -/

section Forms

variable {v : Variant} {s : Store} {addr : Int} {i : Instruction} {family : Family} {code : List Stmt} {slot : Slot}
  {op : Operand}

theorem assignBit_dropped {offset : Int} {pos : Fin 16} (h : (Operand.bit offset pos).isDropped s addr = true)
    (value : Bool) : assignBit s addr offset pos value = .nop := by
  rw [Operand.isDropped_bit] at h
  exact Place.write_fixed h _ _ _

theorem not_isStackSlot_of_isDropped (mode : IndirectMode) (h : op.isDropped s addr = true) :
    op.isStackSlot v mode = false := by
  obtain ⟨place, hplace, -⟩ := Operand.place_of_isDropped h
  exact not_isStackSlot_of_place mode hplace

/-- A write to an operand that stands for a fixed word is discarded. -/
theorem Emits.nop_of_write (h : Emits v s addr i family code) (hfamily : i.family = family) (hword : i.WordOnStack)
    (hop : i.operand slot = .ok op) (hdropped : op.isDropped s addr = true) (hwrites : i.Writes v slot) :
    Stmt.nop ∈ code := by
  rw [Instruction.Writes, hfamily] at hwrites
  cases h with
  | combine dstOperand srcOperand operation stored dstWidth dstValue srcValue written =>
    obtain ⟨rfl, -⟩ := hwrites
    cases hop.symm.trans dstOperand
    rw [Operand.write_dropped written hdropped]
    exact List.mem_cons_self
  | compare dstOperand srcOperand operation => exact absurd operation hwrites.2
  | cmpStep dstOperand | unary dstOperand | shift dstOperand | prior dstOperand =>
    obtain rfl : slot = .dst := hwrites
    cases hop.symm.trans dstOperand
    cases hdropped
  | bit bitOperand =>
    obtain rfl : slot = .bit := hwrites
    cases hop.symm.trans bitOperand
    rw [assignBit_dropped hdropped]
    exact List.mem_cons_self
  | bitCompare dstOperand srcOperand operation => exact absurd operation hwrites.2
  | bitCombine dstOperand srcOperand operation =>
    obtain ⟨rfl, -⟩ := hwrites
    cases hop.symm.trans dstOperand
    rw [Operand.isDropped_bit] at hdropped
    rw [Place.write_fixed hdropped]
    exact List.mem_cons_self
  | bitJump bitOperand targetOperand tested =>
    obtain ⟨rfl, hkind⟩ := hwrites
    cases hop.symm.trans bitOperand
    rcases hkind with hkind | hkind
    all_goals
      rw [hkind, bitJumpEffect, assignBit_dropped hdropped]
      simp
  | linkedReturn linked =>
    obtain ⟨-, -, unlinked⟩ := hwrites
    cases linked.symm.trans unlinked
  | plainReturn unlinked operation =>
    obtain ⟨-, hretp, -⟩ := hwrites
    cases operation.symm.trans hretp
  | restoringReturn unlinked operation restored =>
    obtain ⟨rfl, hretp, -⟩ := hwrites
    simp only [restoreOnReturn, hretp, hop, ok_bind] at restored
    split at restored
    · cases restored
      obtain rfl := hword _ _ _ (by simp [hfamily]) hop
      rw [Operand.isDropped_short] at hdropped
      rw [Place.write_fixed hdropped]
      simp
    · cases restored
  | push regOperand operation => exact absurd operation hwrites.2
  | pop regOperand operation =>
    obtain ⟨rfl, -⟩ := hwrites
    cases hop.symm.trans regOperand
    obtain rfl := hword _ _ _ (by simp [hfamily]) regOperand
    rw [Operand.isDropped_short] at hdropped
    rw [Place.write_fixed hdropped]
    exact List.mem_cons_self
  | scxt dstOperand srcOperand srcValue =>
    obtain rfl : slot = .dst := hwrites
    cases hop.symm.trans dstOperand
    rw [Operand.isDropped_short] at hdropped
    rw [Place.write_fixed hdropped]
    simp
  | pushMove dstOperand srcOperand moved stacked =>
    obtain rfl : slot = .dst := hwrites
    cases hop.symm.trans dstOperand
    cases stacked.symm.trans (not_isStackSlot_of_isDropped .preDec hdropped)
  | move dstOperand srcOperand moved unstacked written =>
    obtain rfl : slot = .dst := hwrites
    cases hop.symm.trans dstOperand
    rw [Operand.write_dropped written hdropped]
    simp
  | moveExt dstOperand srcOperand srcValue chosen written =>
    obtain rfl : slot = .dst := hwrites
    cases hop.symm.trans dstOperand
    rw [Operand.write_dropped written hdropped]
    exact List.mem_cons_self
  | _ => cases hwrites

/-! ## Reads -/

/-- The code of an instruction holds the value of the operand in a slot. It does not where the value would go into a
write that is dropped. -/
def Instruction.Reads (v : Variant) (s : Store) (addr : Int) (i : Instruction) (slot : Slot) : Prop :=
  match i.family with
  | .alu | .bitLogic => (slot = .dst ∨ slot = .src) ∧ ¬ i.LosesSource v s addr
  | .cmpStep | .shift | .mul => slot = .dst ∨ slot = .src
  | .unary => slot = .dst
  | .div => slot = .src
  | .move | .moveExt => slot = .src ∧ ¬ i.LosesSource v s addr
  | .scxt => slot = .dst ∨ slot = .src ∧ ¬ i.LosesSource v s addr
  | .stack => slot = .reg ∧ i.operation = some .push
  | .bit => slot = .bit ∧ i.drops s addr .bit = false
  | .bitJump => slot = .bit
  | .jump | .call => slot = .base ∧ i.isIndirect = true
  | _ => False

theorem Il.Expr.self_mem_nodes (e : Expr) : e ∈ e.nodes := by
  cases e <;> exact List.mem_cons_self

theorem mem_nodesOf {stmt : Stmt} {node : Expr} (hstmt : stmt ∈ code) (hnode : node ∈ stmt.nodes) :
    node ∈ nodesOf code :=
  List.mem_flatMap.2 ⟨stmt, hstmt, hnode⟩

theorem AluOp.mem_result_nodes {alu : AluOp} {lhs rhs node : Expr} (h : node ∈ lhs.nodes ∨ node ∈ rhs.nodes)
    (width : Nat) (flags : Option FlagPolicy) : node ∈ (alu.result width lhs rhs flags).nodes := by
  cases alu <;> simp only [result, Expr.nodes, List.mem_cons, List.mem_append] <;> grind

theorem mem_shiftAmount_nodes {amount node : Expr} (h : shiftAmount s addr op = .ok amount)
    (hdropped : op.isDropped s addr = true) (hnode : ∀ {e}, op.read s addr = .ok e → node ∈ e.nodes) :
    node ∈ amount.nodes := by
  unfold shiftAmount at h
  split at h
  · cases hdropped
  · obtain ⟨e, hread, rfl⟩ := map_ok_iff.1 h
    simp [Expr.quiet, Expr.nodes, hnode hread]

theorem mem_bitValueOf_nodes {offset : Int} {node : Expr} (h : node ∈ (bitWordOf s addr offset).nodes) (pos : Fin 16) :
    node ∈ (bitValueOf s addr offset pos).nodes := by
  simp [bitValueOf, Expr.quiet, Expr.nodes, h]

theorem mem_compareBits_nodes {dst src node : Expr} (h : node ∈ dst.nodes ∨ node ∈ src.nodes) :
    node ∈ nodesOf (compareBits dst src) := by
  refine @mem_nodesOf _ (.setFlag .v (.quiet .or 2 src dst)) node (by simp [compareBits]) ?_
  simpa [Stmt.nodes, Stmt.values, Expr.quiet, Expr.nodes, or_comm] using .inr h

theorem mem_combineBit_nodes {operation : Option Operation} {word bit node : Expr} (h : node ∈ bit.nodes)
    (pos : Fin 16) : node ∈ (combineBit operation word bit pos).nodes := by
  unfold combineBit
  split <;> simp [Expr.quiet, Expr.nodes, h]

/-- A read of an operand that stands for a fixed word is the constant. -/
theorem Emits.const_of_read (h : Emits v s addr i family code) (hfamily : i.family = family) (hword : i.WordOnStack)
    (hop : i.operand slot = .ok op) {r : SpecialRegister} {c : Nat} (hplace : op.place? s addr = some (.sfr r.address))
    (hdropped : op.isDropped s addr = true) (hconst : r.constant? = some c) (hreads : i.Reads v s addr slot) :
    op.fixedValue c ∈ nodesOf code := by
  have hread : ∀ {e}, op.read s addr = .ok e → op.fixedValue c ∈ e.nodes := by
    intro e he
    rw [Operand.read_fixed he hplace hdropped hconst]
    exact Expr.self_mem_nodes _
  have hmoved : ∀ {e}, movedValue v s addr op = .ok e → op.fixedValue c ∈ e.nodes := by
    intro e he
    rw [movedValue, not_isStackSlot_of_place .postInc hplace] at he
    exact hread he
  have hbit : ∀ {offset pos}, op = .bit offset pos → op.fixedValue c ∈ (bitWordOf s addr offset).nodes := by
    rintro offset pos rfl
    rw [bitWordOf_fixed hplace hconst]
    exact Expr.self_mem_nodes _
  rw [Instruction.Reads, hfamily] at hreads
  cases h with
  | compare dstOperand srcOperand operation dstWidth dstValue srcValue =>
    refine mem_nodesOf List.mem_cons_self (List.mem_append_left _ ?_)
    obtain ⟨rfl | rfl, -⟩ := hreads
    · cases hop.symm.trans dstOperand
      exact AluOp.mem_result_nodes (.inl (hread dstValue)) _ _
    · cases hop.symm.trans srcOperand
      exact AluOp.mem_result_nodes (.inr (hread srcValue)) _ _
  | combine dstOperand srcOperand operation stored dstWidth dstValue srcValue written =>
    obtain ⟨hslot, hkept⟩ := hreads
    have hwrites : i.Writes v .dst := by simp [Instruction.Writes, hfamily, operation, stored]
    have hdst := Instruction.kept_of_not_losesSource dstOperand hwrites hkept
    rcases hslot with rfl | rfl
    · cases hop.symm.trans dstOperand
      rw [hdropped] at hdst
      cases hdst
    · cases hop.symm.trans srcOperand
      refine mem_nodesOf List.mem_cons_self (Operand.write_nodes written hdst ?_)
      exact AluOp.mem_result_nodes (.inr (hread srcValue)) _ _
  | cmpStep dstOperand srcOperand srcValue step result =>
    obtain rfl | rfl : slot = .dst ∨ slot = .src := hreads
    · cases hop.symm.trans dstOperand
      cases hdropped
    · cases hop.symm.trans srcOperand
      refine mem_nodesOf List.mem_cons_self ?_
      simp [Stmt.nodes, Stmt.values, Expr.nodes, hread srcValue]
  | unary dstOperand =>
    obtain rfl : slot = .dst := hreads
    cases hop.symm.trans dstOperand
    cases hdropped
  | mul dstOperand srcOperand =>
    obtain rfl | rfl : slot = .dst ∨ slot = .src := hreads
    · cases hop.symm.trans dstOperand
      cases hdropped
    · cases hop.symm.trans srcOperand
      cases hdropped
  | div srcOperand =>
    obtain rfl : slot = .src := hreads
    cases hop.symm.trans srcOperand
    cases hdropped
  | shift dstOperand srcOperand counted =>
    obtain rfl | rfl : slot = .dst ∨ slot = .src := hreads
    · cases hop.symm.trans dstOperand
      cases hdropped
    · cases hop.symm.trans srcOperand
      refine mem_nodesOf List.mem_cons_self ?_
      simp [Stmt.setRegister, Stmt.nodes, Stmt.values, Expr.nodes, mem_shiftAmount_nodes counted hdropped hread]
  | bit bitOperand =>
    obtain ⟨rfl, hkept⟩ := hreads
    rw [i.drops_eq s addr hop, hdropped] at hkept
    cases hkept
  | bitCompare dstOperand srcOperand operation =>
    apply mem_compareBits_nodes
    obtain ⟨rfl | rfl, -⟩ := hreads
    · cases hop.symm.trans dstOperand
      exact .inl (mem_bitValueOf_nodes (hbit rfl) _)
    · cases hop.symm.trans srcOperand
      exact .inr (mem_bitValueOf_nodes (hbit rfl) _)
  | bitCombine dstOperand srcOperand operation =>
    obtain ⟨hslot, hkept⟩ := hreads
    have hwrites : i.Writes v .dst := by simp [Instruction.Writes, hfamily, operation]
    have hdst := Instruction.kept_of_not_losesSource dstOperand hwrites hkept
    rcases hslot with rfl | rfl
    · cases hop.symm.trans dstOperand
      rw [hdropped] at hdst
      cases hdst
    · cases hop.symm.trans srcOperand
      rw [Operand.isDropped_bit] at hdst
      refine mem_nodesOf List.mem_cons_self (Place.write_nodes hdst ?_ _ _)
      exact mem_combineBit_nodes (mem_bitValueOf_nodes (hbit rfl) _) _
  | bitJump bitOperand targetOperand tested =>
    obtain rfl : slot = .bit := hreads
    cases hop.symm.trans bitOperand
    refine mem_nodesOf List.mem_cons_self ?_
    simp [Stmt.nodes, Stmt.values, Expr.quiet, Expr.nodes, hbit rfl]
  | indirectJump indirect baseOperand | indirectCall indirect baseOperand =>
    obtain ⟨rfl, -⟩ := hreads
    cases hop.symm.trans baseOperand
    cases hdropped
  | jump direct | guardedJump direct | call direct | guardedCall direct =>
    obtain ⟨-, indirect⟩ := hreads
    cases direct.symm.trans indirect
  | push regOperand operation =>
    obtain ⟨rfl, -⟩ := hreads
    cases hop.symm.trans regOperand
    obtain rfl := hword _ _ _ (by simp [hfamily]) regOperand
    refine mem_nodesOf List.mem_cons_self ?_
    simpa [Stmt.nodes, Stmt.values] using hread rfl
  | pop regOperand operation => exact absurd hreads.2 operation
  | scxt dstOperand srcOperand srcValue =>
    obtain rfl | ⟨rfl, hkept⟩ : slot = .dst ∨ slot = .src ∧ ¬ i.LosesSource v s addr := hreads
    · cases hop.symm.trans dstOperand
      obtain rfl := hword _ _ _ (by simp [hfamily]) dstOperand
      refine mem_nodesOf List.mem_cons_self ?_
      simpa [Stmt.nodes, Stmt.values] using hread rfl
    · cases hop.symm.trans srcOperand
      have hdst := Instruction.kept_of_not_losesSource dstOperand (by simp [Instruction.Writes, hfamily]) hkept
      rw [Operand.isDropped_short] at hdst
      refine mem_nodesOf (List.mem_cons_of_mem _ List.mem_cons_self) ?_
      exact Place.write_nodes hdst (hread srcValue) _ _
  | pushMove dstOperand srcOperand moved stacked =>
    obtain ⟨rfl, -⟩ := hreads
    cases hop.symm.trans srcOperand
    refine mem_nodesOf List.mem_cons_self ?_
    simpa [Stmt.nodes, Stmt.values] using hmoved moved
  | move dstOperand srcOperand moved unstacked written =>
    obtain ⟨rfl, hkept⟩ := hreads
    cases hop.symm.trans srcOperand
    have hdst := Instruction.kept_of_not_losesSource dstOperand (by simp [Instruction.Writes, hfamily]) hkept
    refine mem_nodesOf (List.mem_append_right _ List.mem_cons_self) ?_
    exact Operand.write_nodes written hdst (hmoved moved)
  | moveExt dstOperand srcOperand srcValue chosen written =>
    obtain ⟨rfl, hkept⟩ := hreads
    cases hop.symm.trans srcOperand
    have hdst := Instruction.kept_of_not_losesSource dstOperand (by simp [Instruction.Writes, hfamily]) hkept
    refine mem_nodesOf List.mem_cons_self (Operand.write_nodes written hdst ?_)
    exact List.mem_cons_of_mem _ (hread srcValue)
  | _ => cases hreads

/-! ## Sources that are lost -/

theorem Operand.word_not_mem_step (op : Operand) (mode : IndirectMode) (address : Int) :
    Reference.word address ∉ referencesOf (op.step mode) := by
  unfold step
  split
  · split <;> simp [Stmt.setRegister, Stmt.references, Expr.quiet, Expr.register, Expr.references]
  · exact List.not_mem_nil

/-- With its source, an instruction loses every access to memory at a constant address. -/
theorem Emits.no_word_of_losesSource (h : Emits v s addr i family code) (hfamily : i.family = family)
    (hword : i.WordOnStack) (hlost : i.LosesSource v s addr) (address : Int) :
    Reference.word address ∉ referencesOf code := by
  obtain ⟨hwrites, hdrops⟩ := hlost
  have hdropped : ∀ {dst}, i.operand .dst = .ok dst → dst.isDropped s addr = true := by
    intro dst hdst
    rw [← i.drops_eq s addr hdst, hdrops]
  rw [Instruction.Writes, hfamily] at hwrites
  cases h with
  | combine dstOperand srcOperand operation stored dstWidth dstValue srcValue written =>
    rw [Operand.write_dropped written (hdropped dstOperand)]
    exact Operand.word_not_mem_step _ _ _
  | compare dstOperand srcOperand operation => exact absurd operation hwrites.2
  | cmpStep dstOperand | unary dstOperand | shift dstOperand | prior dstOperand => cases hdropped dstOperand
  | bitCompare dstOperand srcOperand operation => exact absurd operation hwrites.2
  | bitCombine dstOperand srcOperand operation =>
    have hfixed := hdropped dstOperand
    rw [Operand.isDropped_bit] at hfixed
    rw [Place.write_fixed hfixed]
    exact List.not_mem_nil
  | scxt dstOperand srcOperand srcValue =>
    obtain rfl := hword _ _ _ (by simp [hfamily]) dstOperand
    have hfixed := hdropped dstOperand
    rw [Operand.isDropped_short] at hfixed
    simp [Place.write_fixed hfixed, Stmt.references, Place.read_references, hfixed]
  | pushMove dstOperand srcOperand moved stacked =>
    cases stacked.symm.trans (not_isStackSlot_of_isDropped .preDec (hdropped dstOperand))
  | move dstOperand srcOperand moved unstacked written =>
    rw [Operand.write_dropped written (hdropped dstOperand)]
    simp only [referencesOf_append, referencesOf_cons, List.mem_append, not_or]
    refine ⟨Operand.word_not_mem_step _ _ _, List.not_mem_nil, ?_, Operand.word_not_mem_step _ _ _⟩
    split
    · exact List.not_mem_nil
    · exact Operand.word_not_mem_step _ _ _
  | moveExt dstOperand srcOperand srcValue chosen written =>
    rw [Operand.write_dropped written (hdropped dstOperand)]
    exact List.not_mem_nil
  | push | pop | linkedReturn | plainReturn | restoringReturn | bitJump => cases hwrites.1
  | _ => cases hwrites

end Forms

section Decoded

variable {bytes : List UInt8} {addr : Int} {i : Instruction} {slot : Slot} {s : Store} {r : SpecialRegister} {c : Nat}

/-! ## Decoded instructions -/

theorem family_ne_ret_of_mem {raw : Fin 65536} {width : Nat} (h : decode bytes addr = .ok i)
    (hop : i.operand slot = .ok (.mem raw width)) (hneed : slot ∈ (i.family.needs i.operation).map Prod.fst) :
    i.family ≠ .ret := by
  intro hfamily
  obtain ⟨need, hmem, rfl⟩ := List.mem_map.1 hneed
  obtain ⟨op, hfound, hsort⟩ := (complete_of_decode h).holds need hmem
  cases hop.symm.trans hfound
  rw [hfamily, Family.needs] at hmem
  split at hmem
  · rw [List.mem_singleton.1 hmem] at hsort
    simp [Operand.sort] at hsort
  · cases hmem

theorem mem_of_mentions_fixed (hconst : r.constant? = some c) (h : i.Mentions s addr (.word r.address)) :
    ∃ slot raw width, i.operand slot = .ok (.mem raw width) ∧ (s.regime addr).physical raw = r.address := by
  generalize href : Reference.word r.address = ref at h
  cases h with
  | operand bound named =>
    cases named with
    | @place op place found kept =>
      cases place
      all_goals cases href
      rcases Operand.isDropped_of_fixed found hconst with hdropped | ⟨raw, width, rfl⟩
      · cases kept.symm.trans hdropped
      · exact ⟨_, raw, width, bound, Int.ofNat.inj (Place.sfr.inj (Option.some.inj found))⟩
    | register | pointer | page => cases href
  | product family pair =>
    have hfixed := r.fixedWord?_address
    rw [hconst, Reference.word.inj href] at hfixed
    rcases pair with rfl | rfl
    all_goals cases hfixed
  | temp | restored => cases href

/-- Lifted code touches the memory of a fixed word exactly for a memory operand that lies there. An operand of another
form that stands for the word is read as the constant, and writes to it are discarded. -/
theorem memory_operands_alone_touch_fixed_words (h : decode bytes addr = .ok i) (l : Lifter)
    (hvariant : l.variant ∈ Variant.all) (s : Store) (hconst : r.constant? = some c) :
    ∃ code, (l.lift s i addr).answer = .ok ⟨i.length, code⟩ ∧
      (.word r.address ∈ referencesOf code ↔
        ∃ slot raw width, i.operand slot = .ok (.mem raw width) ∧ (s.regime addr).physical raw = r.address ∧
          (slot = .src → ¬ i.LosesSource l.variant s addr)) ∧
      ∀ slot op, i.operand slot = .ok op → op.place? s addr = some (.sfr r.address) →
        (∀ raw width, op ≠ .mem raw width) →
          (i.Writes l.variant slot → .nop ∈ code) ∧
            (i.Reads l.variant s addr slot → op.fixedValue c ∈ nodesOf code) := by
  obtain ⟨code, hanswer, hemits⟩ := lift_emits h l s
  have hword := wordOnStack_of_decode h
  refine ⟨code, hanswer, ⟨fun href => ?_, ?_⟩, ?_⟩
  · obtain ⟨slot, raw, width, hop, haddress⟩ := mem_of_mentions_fixed hconst (hemits.mentions rfl hvariant hword _ href)
    exact ⟨slot, raw, width, hop, haddress, fun _ hlost => hemits.no_word_of_losesSource rfl hword hlost _ href⟩
  · rintro ⟨slot, raw, width, hop, haddress, hwritten⟩
    have hplace : (Operand.mem raw width).place? s addr = some (.sfr r.address) := by rw [Operand.place?, haddress]
    have hneed := needs_of_place h hop hplace
    refine hemits.refers_to_place rfl hword hop hplace hneed rfl (fun hret => ?_) hwritten
    exact absurd hret (family_ne_ret_of_mem h hop hneed)
  · intro slot op hop hplace hform
    have hdropped : op.isDropped s addr = true := by
      rcases Operand.isDropped_of_fixed hplace hconst with hdropped | ⟨raw, width, hmem⟩
      · exact hdropped
      · exact absurd hmem (hform raw width)
    exact ⟨hemits.nop_of_write rfl hword hop hdropped, hemits.const_of_read rfl hword hop hplace hdropped hconst⟩

/-- The first four pages in order, so that a memory operand stands for its own address. -/
def flatStore : Store :=
  .empty ⟨.ofInt 0, .ofInt 1, .ofInt 2, .ofInt 3⟩

/-- Comparing `ZEROS` by its short address with `ZEROS` by its memory address: the first is the constant, and the second
is loaded. -/
theorem memory_operands_alone_touch_fixed_words_compare :
    ∃ i code, decode [0x42, 0x8E, 0x1C, 0xFF] 0x1000 = .ok i ∧ Variant.v2 ∈ Variant.all ∧
      SpecialRegister.zeros.constant? = some 0 ∧
      ((⟨.v2, false⟩ : Lifter).lift flatStore i 0x1000).answer = .ok ⟨i.length, code⟩ ∧
      Reference.word 0xFF1C ∈ referencesOf code ∧ Expr.const 2 0 ∈ nodesOf code := by
  obtain ⟨i, hdecode, hkept⟩ : ∃ i, decode [0x42, 0x8E, 0x1C, 0xFF] 0x1000 = .ok i ∧
      ¬ i.LosesSource .v2 flatStore 0x1000 := ⟨_, rfl, fun hlost => hlost.1.2 rfl⟩
  have hzeros : SpecialRegister.zeros.constant? = some 0 := rfl
  obtain ⟨code, hanswer, hmemory, hfixed⟩ :=
    memory_operands_alone_touch_fixed_words hdecode ⟨.v2, false⟩ (by decide) flatStore hzeros
  cases hdecode
  have hload := hmemory.2 ⟨.src, _, _, rfl, rfl, fun _ => hkept⟩
  have hconst := (hfixed .dst _ rfl rfl fun _ _ hmem => by cases hmem).2 ⟨.inl rfl, hkept⟩
  exact ⟨_, code, rfl, by decide, hzeros, hanswer, hload, hconst⟩

end Decoded

end Lift166
