import Lift166.Proofs.Effects

/-!
# What lifted code refers to

The registers, temporaries and constant addresses in lifted code, each with where it came from. Reading or writing an
operand refers to what the operand names and to nothing else. Conversely a read or a write of a place refers to that
place, unless the hardware fixes its word and the operand is one for which that is known.
-/

namespace Lift166

namespace Il

/-! ## References -/

/-- Something that code refers to. -/
inductive Reference
  /-- A register or temporary that is read or written. -/
  | reg (var : Var)
  /-- A constant address that is loaded from or stored to. -/
  | word (address : Int)
  /-- A constant address that another address is computed from. -/
  | base (address : Int)
deriving DecidableEq

/-- The address that an expression is, if it is a constant one. -/
def Expr.pointer? : Expr → Option Int
  | .pointer _ address => some address
  | _ => none

/-- What an access refers to through its address, given what the parts of the address refer to. -/
def accessed (address : Option Int) (parts : List Reference) : List Reference :=
  match address with
  | some address => [.word address]
  | none => parts

/-- What an expression refers to. -/
def Expr.references : Expr → List Reference
  | .reg _ var => [.reg var]
  | .pointer _ address => [.base address]
  | .load _ address => accessed address.pointer? address.references
  | .unary _ _ _ arg => arg.references
  | .binary _ _ _ lhs rhs => lhs.references ++ rhs.references
  | .withCarry _ _ _ lhs rhs carry => lhs.references ++ (rhs.references ++ carry.references)
  | .const _ _ | .flag _ | .pop _ | .unimplemented => []

/-- What a statement refers to. -/
def Stmt.references : Stmt → List Reference
  | .setReg _ _ var value => .reg var :: value.references
  | .store _ _ address value => accessed address.pointer? address.references ++ value.references
  | .setFlag _ value | .push _ value | .eval value => value.references
  | .jump dest | .call dest | .ret dest => dest.references
  | .ifElse cond _ _ => cond.references
  | .noReturn | .nop | .unimplemented | .goto _ | .label _ => []

/-- What code refers to. -/
def referencesOf (code : List Stmt) : List Reference :=
  code.flatMap Stmt.references

@[simp] theorem referencesOf_nil : referencesOf [] = [] := rfl

@[simp] theorem referencesOf_cons (stmt : Stmt) (code : List Stmt) :
    referencesOf (stmt :: code) = stmt.references ++ referencesOf code :=
  List.flatMap_cons

@[simp] theorem referencesOf_append (front back : List Stmt) :
    referencesOf (front ++ back) = referencesOf front ++ referencesOf back :=
  List.flatMap_append

end Il

open Il

/-! ## Places -/

/-- The reference to a place. -/
def Place.reference : Place → Reference
  | gpr r => .reg (.machine r)
  | sfr address => .word address

theorem Place.read_references (place : Place) (width : Nat) :
    (place.read width).references = if place.isFixed then [] else [place.reference] := by
  cases place with
  | gpr r => rfl
  | sfr address =>
    rw [isFixed_sfr]
    simp only [read]
    split
    · next word hword => simp [hword, Expr.references]
    · next hword => simp [hword, Expr.references, Expr.pointer?, accessed, reference]

theorem Place.write_references (place : Place) (width : Nat) (value : Expr) (flags : Option FlagPolicy) :
    (place.write width value flags).references =
      if place.isFixed then [] else place.reference :: value.references := by
  cases place with
  | gpr r => rfl
  | sfr address =>
    rw [isFixed_sfr]
    simp only [write]
    split
    · next word hword => simp [hword, Stmt.references]
    · next hword => simp [hword, Stmt.references, Expr.pointer?, accessed, reference]

/-! ## Operands -/

/-- The place of an operand, if it names a place: a short address, a memory word or a bit. -/
def Operand.place? (s : Store) (addr : Int) : Operand → Option Place
  | short code width => some (.ofShort s addr code.val width)
  | mem raw _ => some (.sfr ((s.regime addr).physical raw))
  | bit offset _ => some (.ofBitOffset s addr offset)
  | _ => none

/-- What an operand of the instruction at an address names. A fixed word is named by a memory operand only. -/
inductive Operand.Names (s : Store) (addr : Int) : Operand → Reference → Prop
  | register (r : Register) (width : Nat) : Names s addr (.reg r width) (.reg (.machine r))
  | place {op : Operand} {place : Place} (found : op.place? s addr = some place) (kept : op.isDropped s addr = false) :
      Names s addr op place.reference
  | pointer (base : Register) (mode : IndirectMode) (width : Nat) (disp : Int) :
      Names s addr (.indirect base mode width disp) (.reg (.machine base))
  | page (base : Register) (mode : IndirectMode) (width : Nat) (disp : Int) :
      Names s addr (.indirect base mode width disp) (.base SpecialRegister.dpp0.address)

theorem pointerBase_references (base : Register) (disp : Int) :
    (pointerBase base disp).references = [.reg (.machine base)] := by
  unfold pointerBase
  split <;> rfl

/-- The address of an indirect operand is no constant. -/
theorem indirectAddress_pointer? (s : Store) (addr : Int) (base : Register) (disp : Int) :
    (indirectAddress s addr base disp).pointer? = none := by
  simp only [indirectAddress]
  split
  · rfl
  · split <;> rfl

/-- The address of an indirect operand comes from its base and, unless an override is in force, from the data page
pointers. -/
theorem indirectAddress_references {s : Store} {addr : Int} {base : Register} {disp : Int} {ref : Reference}
    (h : ref ∈ (indirectAddress s addr base disp).references) :
    ref = .reg (.machine base) ∨ ref = .base SpecialRegister.dpp0.address := by
  have hbase := pointerBase_references base disp
  simp only [indirectAddress] at h
  split at h
  · left
    simpa [Expr.quiet, Expr.references, hbase] using h
  · split at h
    · left
      simpa [Expr.quiet, Expr.references, pageOffset, hbase] using h
    · refine Or.symm ?_
      simpa [Expr.quiet, Expr.references, pageOffset, selectedPage, Expr.pointer?, accessed, hbase] using h

section Access

variable {s : Store} {addr : Int} {op : Operand} {place : Place} {ref : Reference}

theorem Operand.isDropped_of_place (hplace : op.place? s addr = some place) (hfree : place.isFixed = false) :
    op.isDropped s addr = false := by
  cases op
  all_goals cases hplace
  case mem => rfl
  case short code width => rwa [isDropped_short]
  case bit offset pos => rwa [isDropped_bit]

theorem Operand.names_of_place (h : ref ∈ (if place.isFixed then [] else [place.reference]))
    (hplace : op.place? s addr = some place) : op.Names s addr ref := by
  split at h
  · cases h
  · next hfree =>
    rw [List.mem_singleton.1 h]
    exact .place hplace (isDropped_of_place hplace (Bool.eq_false_iff.2 hfree))

theorem Operand.names_of_read {e : Expr} (h : op.read s addr = .ok e) (href : ref ∈ e.references) :
    op.Names s addr ref := by
  cases op
  all_goals cases h
  case reg r width =>
    rw [List.mem_singleton.1 href]
    exact .register r width
  case short code width =>
    rw [Place.read_references] at href
    exact names_of_place href rfl
  case imm => cases href
  case mem raw width =>
    rw [List.mem_singleton.1 href]
    exact @Names.place s addr _ (.sfr _) rfl rfl
  case indirect base mode width disp =>
    rw [Expr.references, indirectAddress_pointer?] at href
    rcases indirectAddress_references href with rfl | rfl
    · exact .pointer base mode width disp
    · exact .page base mode width disp

/-- Reading an operand that names a place refers to the place. -/
theorem Operand.read_place {e : Expr} (h : op.read s addr = .ok e) (hplace : op.place? s addr = some place)
    (hkept : op.isDropped s addr = false) : place.reference ∈ e.references := by
  cases op
  all_goals cases h
  all_goals cases hplace
  case short code width =>
    rw [isDropped_short] at hkept
    rw [Place.read_references, hkept]
    exact List.mem_cons_self
  case mem raw width => exact List.mem_cons_self

theorem Operand.names_of_write {value : Expr} {flags : Option FlagPolicy} {stmt : Stmt}
    (h : op.write s addr value flags = .ok stmt) (href : ref ∈ stmt.references) :
    op.Names s addr ref ∨ ref ∈ value.references := by
  cases op
  all_goals cases h
  case reg r width =>
    rcases List.mem_cons.1 href with rfl | href
    · exact .inl (.register r width)
    · exact .inr href
  case short code width =>
    rw [Place.write_references] at href
    split at href
    · cases href
    · next hfree =>
      rcases List.mem_cons.1 href with rfl | href
      · exact .inl (.place rfl (Operand.isDropped_of_place rfl (Bool.eq_false_iff.2 hfree)))
      · exact .inr href
  case mem raw width =>
    rcases List.mem_cons.1 href with rfl | href
    · exact .inl (@Names.place s addr _ (.sfr _) rfl rfl)
    · exact .inr href
  case indirect base mode width disp =>
    rw [Stmt.references, indirectAddress_pointer?] at href
    rcases List.mem_append.1 href with href | href
    · rcases indirectAddress_references href with rfl | rfl
      · exact .inl (.pointer base mode width disp)
      · exact .inl (.page base mode width disp)
    · exact .inr href

/-- Writing an operand that names a place refers to the place. -/
theorem Operand.write_place {value : Expr} {flags : Option FlagPolicy} {stmt : Stmt}
    (h : op.write s addr value flags = .ok stmt) (hplace : op.place? s addr = some place)
    (hkept : op.isDropped s addr = false) : place.reference ∈ stmt.references := by
  cases op
  all_goals cases h
  all_goals cases hplace
  case short code width =>
    rw [isDropped_short] at hkept
    rw [Place.write_references, hkept]
    exact List.mem_cons_self
  case mem raw width => exact List.mem_cons_self

/-- A write that is not dropped refers to whatever its value refers to. -/
theorem Operand.write_value {value : Expr} {flags : Option FlagPolicy} {stmt : Stmt}
    (h : op.write s addr value flags = .ok stmt) (hkept : op.isDropped s addr = false)
    (href : ref ∈ value.references) : ref ∈ stmt.references := by
  cases op
  all_goals cases h
  case short code width =>
    rw [isDropped_short] at hkept
    rw [Place.write_references, hkept]
    exact List.mem_cons_of_mem _ href
  case reg => exact List.mem_cons_of_mem _ href
  case mem => exact List.mem_append_right _ href
  case indirect => exact List.mem_append_right _ href

theorem Operand.names_of_step {mode : IndirectMode} (href : ref ∈ referencesOf (op.step mode)) :
    op.Names s addr ref := by
  cases op
  case indirect base m width disp =>
    simp only [step] at href
    split at href
    · have hbase : ref = .reg (.machine base) := by
        simpa [Stmt.setRegister, Stmt.references, Expr.quiet, Expr.register, Expr.references] using href
      rw [hbase]
      exact .pointer base m width disp
    · cases href
  all_goals cases href

theorem Operand.names_of_shiftAmount {amount : Expr} (h : shiftAmount s addr op = .ok amount)
    (href : ref ∈ amount.references) : op.Names s addr ref := by
  unfold shiftAmount at h
  split at h
  · cases h
    cases href
  · obtain ⟨e, hread, rfl⟩ := map_ok_iff.1 h
    refine names_of_read hread ?_
    simpa [Expr.quiet, Expr.references] using href

theorem Operand.shiftAmount_place {amount : Expr} (h : shiftAmount s addr op = .ok amount)
    (hplace : op.place? s addr = some place) (hkept : op.isDropped s addr = false) :
    place.reference ∈ amount.references := by
  unfold shiftAmount at h
  split at h
  · cases hplace
  · obtain ⟨e, hread, rfl⟩ := map_ok_iff.1 h
    exact List.mem_append_left _ (read_place hread hplace hkept)

end Access

/-! ## Parts of the forms -/

theorem AluOp.mem_result_references {op : AluOp} {width : Nat} {lhs rhs : Expr} {flags : Option FlagPolicy}
    {ref : Reference} :
    ref ∈ (op.result width lhs rhs flags).references ↔ ref ∈ lhs.references ∨ ref ∈ rhs.references := by
  cases op <;> simp [result, Expr.references]

theorem divisionOf_references {operation : Option Operation} {ref : Reference}
    (h : ref ∈ (divisionOf operation).2.2.references) :
    ref = .word SpecialRegister.mdl.address ∨ ref = .word SpecialRegister.mdh.address := by
  unfold divisionOf at h
  split at h
  · exact .inl (List.mem_singleton.1 h)
  · exact .inl (List.mem_singleton.1 h)
  · refine Or.symm ?_
    simpa [longDividend, Expr.quiet, Expr.quietUnary, Expr.references, SpecialRegister.load, Expr.pointer?, accessed]
      using h
  · refine Or.symm ?_
    simpa [longDividend, Expr.quiet, Expr.quietUnary, Expr.references, SpecialRegister.load, Expr.pointer?, accessed]
      using h

theorem guard_references {i : Instruction} {cond : Expr} (h : i.guard? = some cond) : cond.references = [] := by
  obtain ⟨code, -, htest⟩ := Option.bind_eq_some_iff.1 h
  cases code <;> cases htest <;> rfl

section Bits

variable {s : Store} {addr offset : Int} {pos : Fin 16}

theorem bitValueOf_references : (bitValueOf s addr offset pos).references = (bitWordOf s addr offset).references := by
  simp [bitValueOf, Expr.quiet, Expr.references]

theorem mem_combineBit_references {operation : Option Operation} {word bit : Expr} {ref : Reference} :
    ref ∈ (combineBit operation word bit pos).references ↔ ref ∈ word.references ∨ ref ∈ bit.references := by
  unfold combineBit
  split <;> simp [Expr.quiet, Expr.references]

theorem assignBit_references {value : Bool} :
    (assignBit s addr offset pos value).references =
      if (Place.ofBitOffset s addr offset).isFixed then []
      else [(Place.ofBitOffset s addr offset).reference, (Place.ofBitOffset s addr offset).reference] := by
  simp only [assignBit, Place.write_references]
  split
  · rfl
  · next hfree => cases value <;> simp [Expr.quiet, Expr.references, Place.read_references, hfree]

theorem names_of_bitWordOf {ref : Reference} (h : ref ∈ (bitWordOf s addr offset).references) :
    (Operand.bit offset pos).Names s addr ref := by
  rw [bitWordOf, Place.read_references] at h
  exact Operand.names_of_place h rfl

theorem names_of_assignBit {value : Bool} {ref : Reference} (h : ref ∈ (assignBit s addr offset pos value).references) :
    (Operand.bit offset pos).Names s addr ref := by
  rw [assignBit_references] at h
  split at h
  · cases h
  · next hfree =>
    have href : ref = (Place.ofBitOffset s addr offset).reference := by simpa using h
    rw [href]
    exact .place rfl (Operand.isDropped_of_place rfl (Bool.eq_false_iff.2 hfree))

theorem names_of_bitJumpEffect {operation : Option Operation} {ref : Reference}
    (h : ref ∈ referencesOf (bitJumpEffect s addr offset pos operation)) : (Operand.bit offset pos).Names s addr ref := by
  unfold bitJumpEffect at h
  split at h
  · exact names_of_assignBit (by simpa using h)
  · exact names_of_assignBit (by simpa using h)
  · cases h

end Bits

/-! ## What the forms refer to -/

/-- What the code of an instruction may refer to: what the operands name, temporaries, the register pair of products and
quotients, and the system registers of a return. -/
inductive Instruction.Mentions (s : Store) (addr : Int) (i : Instruction) : Reference → Prop
  | operand {slot : Slot} {op : Operand} {ref : Reference} (bound : i.operand slot = .ok op)
      (named : op.Names s addr ref) : Mentions s addr i ref
  | temp (index : Nat) : Mentions s addr i (.reg (.temp index))
  | product {r : SpecialRegister} (family : i.family = .mul ∨ i.family = .div) (pair : r = .mdl ∨ r = .mdh) :
      Mentions s addr i (.word r.address)
  | restored {r : Register} (family : i.family = .ret) (system : r = .csp ∨ r = .psw ∨ r = .lr) :
      Mentions s addr i (.reg (.machine r))

namespace Instruction

/-- The code of an instruction writes to the operand in a slot. A return through a link register restores nothing. -/
def Writes (v : Variant) (i : Instruction) (slot : Slot) : Prop :=
  match i.family with
  | .alu => slot = .dst ∧ i.operation ≠ some (.alu .cmp)
  | .cmpStep | .unary | .shift | .prior | .move | .moveExt | .scxt => slot = .dst
  | .stack => slot = .reg ∧ i.operation ≠ some .push
  | .ret => slot = .reg ∧ i.operation = some (.ret .retp) ∧ v.linkRegister = none
  | .bit => slot = .bit
  | .bitLogic => slot = .dst ∧ i.operation ≠ some (.bitLogic .bcmp)
  | .bitJump => slot = .bit ∧ (i.operation = some (.bitJump .jbc) ∨ i.operation = some (.bitJump .jnbs))
  | _ => False

/-- The source is lost with a write to the destination that is dropped. -/
def LosesSource (v : Variant) (s : Store) (addr : Int) (i : Instruction) : Prop :=
  i.Writes v .dst ∧ i.drops s addr .dst = true

/-- A write to the destination of a source that is not lost is not dropped. -/
theorem kept_of_not_losesSource {i : Instruction} {v : Variant} {s : Store} {addr : Int} {dst : Operand}
    (hdst : i.operand .dst = .ok dst) (hwrites : i.Writes v .dst) (h : ¬ i.LosesSource v s addr) :
    dst.isDropped s addr = false := by
  rw [← i.drops_eq s addr hdst, Bool.eq_false_iff]
  exact fun hdrops => h ⟨hwrites, hdrops⟩

end Instruction

/-- The short addresses of stack instructions and returns stand for words. -/
def Instruction.WordOnStack (i : Instruction) : Prop :=
  ∀ slot code width, i.family ∈ [.ret, .stack, .scxt] → i.operand slot = .ok (.short code width) → width = 2

section Forms

variable {v : Variant} {s : Store} {addr : Int} {i : Instruction} {family : Family} {code : List Stmt}

theorem linkRegister_eq (hvariant : v ∈ Variant.all) {link : Register} (h : v.linkRegister = some link) : link = .lr := by
  simp only [Variant.all, List.mem_cons, List.not_mem_nil, or_false] at hvariant
  rcases hvariant with rfl | rfl | rfl
  all_goals cases h
  rfl

theorem restoreOnReturn_mentions {restore : Stmt} (h : restoreOnReturn s addr i = .ok restore)
    (hfamily : i.family = .ret) (hword : i.WordOnStack) : ∀ ref ∈ restore.references, i.Mentions s addr ref := by
  intro ref href
  unfold restoreOnReturn at h
  split at h
  · cases h
    rw [List.mem_singleton.1 href]
    exact .restored hfamily (.inl rfl)
  · rw [bind_ok_iff] at h
    obtain ⟨op, hoperand, h⟩ := h
    split at h
    · next short width =>
      cases h
      obtain rfl := hword _ _ _ (by simp [hfamily]) hoperand
      rw [Place.write_references] at href
      exact .operand hoperand (Operand.names_of_place href rfl)
    · cases h
  · cases h
    rw [List.mem_singleton.1 href]
    exact .restored hfamily (.inr (.inl rfl))

theorem mentions_of_read {slot : Slot} {op : Operand} {e : Expr} (hop : i.operand slot = .ok op)
    (h : op.read s addr = .ok e) : ∀ ref ∈ e.references, i.Mentions s addr ref :=
  fun _ href => .operand hop (Operand.names_of_read h href)

theorem mentions_of_write {slot : Slot} {op : Operand} {value : Expr} {flags : Option FlagPolicy} {stmt : Stmt}
    (hop : i.operand slot = .ok op) (h : op.write s addr value flags = .ok stmt)
    (hvalue : ∀ ref ∈ value.references, i.Mentions s addr ref) : ∀ ref ∈ stmt.references, i.Mentions s addr ref := by
  intro ref href
  rcases Operand.names_of_write h href with hnames | href
  · exact .operand hop hnames
  · exact hvalue ref href

theorem mentions_of_step {slot : Slot} {op : Operand} (mode : IndirectMode) (hop : i.operand slot = .ok op) :
    ∀ ref ∈ referencesOf (op.step mode), i.Mentions s addr ref :=
  fun _ href => .operand hop (Operand.names_of_step href)

theorem mentions_of_movedValue {slot : Slot} {src : Operand} {value : Expr} (hsrc : i.operand slot = .ok src)
    (h : movedValue v s addr src = .ok value) : ∀ ref ∈ value.references, i.Mentions s addr ref := by
  unfold movedValue at h
  split at h
  · cases h
    exact fun _ href => absurd href List.not_mem_nil
  · exact mentions_of_read hsrc h

theorem mentions_of_bitWordOf {slot : Slot} {offset : Int} {pos : Fin 16} (hbit : i.operand slot = .ok (.bit offset pos)) :
    ∀ ref ∈ (bitWordOf s addr offset).references, i.Mentions s addr ref :=
  fun _ href => .operand hbit (names_of_bitWordOf href)

/-- Everything that lifted code refers to has a reason. -/
theorem Emits.mentions (h : Emits v s addr i family code) (hfamily : i.family = family) (hvariant : v ∈ Variant.all)
    (hword : i.WordOnStack) : ∀ ref ∈ referencesOf code, i.Mentions s addr ref := by
  cases h with
  | compare dstOperand srcOperand operation dstWidth dstValue srcValue =>
    simp only [referencesOf_cons, Stmt.references, List.forall_mem_append]
    refine ⟨fun ref href => ?_, mentions_of_step _ srcOperand⟩
    rcases AluOp.mem_result_references.1 href with href | href
    · exact mentions_of_read dstOperand dstValue ref href
    · exact mentions_of_read srcOperand srcValue ref href
  | combine dstOperand srcOperand operation stored dstWidth dstValue srcValue written =>
    simp only [referencesOf_cons, List.forall_mem_append]
    refine ⟨mentions_of_write dstOperand written fun ref href => ?_, mentions_of_step _ srcOperand⟩
    rcases AluOp.mem_result_references.1 href with href | href
    · exact mentions_of_read dstOperand dstValue ref href
    · exact mentions_of_read srcOperand srcValue ref href
  | @cmpStep r width src rhs stepped amount dstOperand srcOperand srcValue step result =>
    have hr : i.Mentions s addr (.reg (.machine r)) := .operand dstOperand (.register r width)
    have hstepped : stepped.references = [.reg (.machine r)] := by
      rw [result]
      split <;> rfl
    simp only [referencesOf_cons, referencesOf_nil, Stmt.setRegister, Stmt.references, Expr.references, Expr.register,
      hstepped, List.forall_mem_append, List.forall_mem_cons]
    exact ⟨⟨⟨hr, by simp⟩, mentions_of_read srcOperand srcValue⟩, ⟨hr, hr, by simp⟩, by simp⟩
  | @unary r width op dstOperand chosen =>
    have hr : i.Mentions s addr (.reg (.machine r)) := .operand dstOperand (.register r width)
    simpa [Stmt.setRegister, Stmt.references, Expr.references, Expr.register] using hr
  | @mul lhs rhs lhsWidth rhsWidth op dstOperand srcOperand chosen =>
    have hlhs : i.Mentions s addr (.reg (.machine lhs)) := .operand dstOperand (.register lhs lhsWidth)
    have hrhs : i.Mentions s addr (.reg (.machine rhs)) := .operand srcOperand (.register rhs rhsWidth)
    have htemp : i.Mentions s addr (.reg (.temp 0)) := .temp 0
    have hlow : i.Mentions s addr (.word SpecialRegister.mdl.address) := .product (.inl hfamily) (.inl rfl)
    have hhigh : i.Mentions s addr (.word SpecialRegister.mdh.address) := .product (.inl hfamily) (.inr rfl)
    simp [Stmt.setTemp, Stmt.references, Expr.references, Expr.register, Expr.temp, Expr.quiet, Expr.quietUnary,
      SpecialRegister.store, Expr.pointer?, accessed, hlhs, hrhs, htemp, hlow, hhigh]
  | @div r width quotient remainder dividend srcOperand chosen =>
    have hr : i.Mentions s addr (.reg (.machine r)) := .operand srcOperand (.register r width)
    have hlow : i.Mentions s addr (.word SpecialRegister.mdl.address) := .product (.inr hfamily) (.inl rfl)
    have hhigh : i.Mentions s addr (.word SpecialRegister.mdh.address) := .product (.inr hfamily) (.inr rfl)
    have hdividend : ∀ ref ∈ dividend.references, i.Mentions s addr ref := by
      intro ref href
      have hpair : dividend = (divisionOf i.operation).2.2 := by rw [chosen]
      rw [hpair] at href
      rcases divisionOf_references href with rfl | rfl
      · exact hlow
      · exact hhigh
    have htemps : ∀ index, i.Mentions s addr (.reg (.temp index)) := .temp
    simpa [Stmt.setTemp, Stmt.references, Expr.references, Expr.register, Expr.temp, Expr.quiet,
      SpecialRegister.store, Expr.pointer?, accessed, hr, hlow, hhigh, htemps, or_imp, forall_and] using hdividend
  | @shift r width count amount dstOperand srcOperand counted =>
    have hr : i.Mentions s addr (.reg (.machine r)) := .operand dstOperand (.register r width)
    simp only [referencesOf_cons, referencesOf_nil, Stmt.setRegister, Stmt.references, Expr.references, Expr.register,
      List.forall_mem_append, List.forall_mem_cons]
    exact ⟨⟨hr, ⟨hr, by simp⟩, fun ref href => .operand srcOperand (Operand.names_of_shiftAmount counted href)⟩, by simp⟩
  | @prior r width dstOperand =>
    have hr : i.Mentions s addr (.reg (.machine r)) := .operand dstOperand (.register r width)
    simpa [Stmt.setRegister, Stmt.references, Expr.references] using hr
  | bit bitOperand =>
    simp only [referencesOf_cons, referencesOf_nil, List.append_nil]
    exact fun ref href => .operand bitOperand (names_of_assignBit href)
  | bitCompare dstOperand srcOperand operation =>
    have hdst : ∀ ref ∈ (bitWordOf s addr _).references, i.Mentions s addr ref := mentions_of_bitWordOf dstOperand
    have hsrc : ∀ ref ∈ (bitWordOf s addr _).references, i.Mentions s addr ref := mentions_of_bitWordOf srcOperand
    simp only [compareBits, referencesOf_cons, referencesOf_nil, Stmt.references, Expr.quiet, Expr.references,
      bitValueOf_references, List.nil_append, List.append_nil, List.forall_mem_append]
    exact ⟨⟨hsrc, hdst⟩, ⟨hsrc, hdst⟩, ⟨hsrc, hdst⟩, hsrc, hdst⟩
  | @bitCombine dstOffset srcOffset dstPos srcPos dstOperand srcOperand operation =>
    intro ref href
    simp only [referencesOf_cons, referencesOf_nil, List.append_nil, Place.write_references] at href
    split at href
    · cases href
    · next hfree =>
      rcases List.mem_cons.1 href with rfl | href
      · exact .operand dstOperand (.place rfl (Operand.isDropped_of_place rfl (Bool.eq_false_iff.2 hfree)))
      · rcases mem_combineBit_references.1 href with href | href
        · exact mentions_of_bitWordOf dstOperand ref href
        · rw [bitValueOf_references] at href
          exact mentions_of_bitWordOf srcOperand ref href
  | bitJump bitOperand targetOperand tested =>
    simp only [referencesOf_cons, referencesOf_nil, referencesOf_append, Stmt.references, Expr.quiet, Expr.references,
      List.nil_append, List.append_nil, List.forall_mem_append]
    exact ⟨mentions_of_bitWordOf bitOperand, fun ref href => .operand bitOperand (names_of_bitJumpEffect href)⟩
  | @indirectJump base mode width disp indirect baseOperand | @indirectCall base mode width disp indirect baseOperand =>
    have hbase : i.Mentions s addr (.reg (.machine base)) := .operand baseOperand (.pointer base mode width disp)
    simpa [inOwnSegment, Stmt.references, Expr.quiet, Expr.quietUnary, Expr.register, Expr.references] using hbase
  | guardedJump direct targetOperand guarded | guardedCall direct targetOperand guarded =>
    simp [Stmt.references, Expr.references, guard_references guarded]
  | @linkedReturn link linked =>
    have hlink : link = .lr := linkRegister_eq hvariant linked
    rw [hlink]
    have hlr : i.Mentions s addr (.reg (.machine .lr)) := .restored hfamily (.inr (.inr rfl))
    simpa [Stmt.references, Expr.register, Expr.references] using hlr
  | restoringReturn unlinked operation restored =>
    have htemp : i.Mentions s addr (.reg (.temp 0)) := .temp 0
    simp only [referencesOf_cons, referencesOf_nil, Stmt.setTemp, Stmt.references, Expr.temp, Expr.references,
      List.forall_mem_append, List.forall_mem_cons]
    exact ⟨⟨htemp, by simp⟩, restoreOnReturn_mentions restored hfamily hword, ⟨htemp, by simp⟩, by simp⟩
  | @push short width regOperand operation =>
    obtain rfl := hword _ _ _ (by simp [hfamily]) regOperand
    simp only [referencesOf_cons, referencesOf_nil, Stmt.references, List.append_nil, Place.read_references]
    exact fun ref href => .operand regOperand (Operand.names_of_place href rfl)
  | @pop short width regOperand operation =>
    obtain rfl := hword _ _ _ (by simp [hfamily]) regOperand
    simp only [referencesOf_cons, referencesOf_nil, List.append_nil, Place.write_references]
    exact fun ref href => .operand regOperand (Operand.names_of_place href rfl)
  | @scxt short width src value dstOperand srcOperand srcValue =>
    obtain rfl := hword _ _ _ (by simp [hfamily]) dstOperand
    simp only [referencesOf_cons, referencesOf_nil, Stmt.references, List.append_nil, List.forall_mem_append,
      Place.read_references]
    refine ⟨fun ref href => .operand dstOperand (Operand.names_of_place href rfl), ?_⟩
    exact mentions_of_write dstOperand rfl (mentions_of_read srcOperand srcValue)
  | pushMove dstOperand srcOperand moved stacked =>
    simp only [referencesOf_cons, referencesOf_nil, Stmt.references, List.append_nil]
    exact mentions_of_movedValue srcOperand moved
  | @move dst src value stmt dstOperand srcOperand moved unstacked written =>
    simp only [referencesOf_append, referencesOf_cons, List.forall_mem_append]
    refine ⟨mentions_of_step _ dstOperand, ?_, ?_, mentions_of_step _ dstOperand⟩
    · exact mentions_of_write dstOperand written (mentions_of_movedValue srcOperand moved)
    · split
      · exact fun _ href => absurd href List.not_mem_nil
      · exact mentions_of_step _ srcOperand
  | moveExt dstOperand srcOperand srcValue chosen written =>
    simp only [referencesOf_cons, referencesOf_nil, List.append_nil]
    exact mentions_of_write dstOperand written fun ref href => mentions_of_read srcOperand srcValue ref href
  | bitField | jump | call | plainReturn | trap | powerDown | system | nop | extension | extensionByRegister =>
    exact fun _ href => absurd href List.not_mem_nil

theorem not_isStackSlot_of_place {op : Operand} {place : Place} (mode : IndirectMode)
    (hplace : op.place? s addr = some place) : op.isStackSlot v mode = false := by
  cases op
  case indirect => cases hplace
  all_goals rfl

theorem movedValue_place {src : Operand} {value : Expr} {place : Place} (h : movedValue v s addr src = .ok value)
    (hplace : src.place? s addr = some place) (hkept : src.isDropped s addr = false) :
    place.reference ∈ value.references := by
  rw [movedValue, not_isStackSlot_of_place .postInc hplace] at h
  exact Operand.read_place h hplace hkept

theorem bitValueOf_place {offset : Int} {pos : Fin 16} (hkept : (Operand.bit offset pos).isDropped s addr = false) :
    (Place.ofBitOffset s addr offset).reference ∈ (bitValueOf s addr offset pos).references := by
  rw [Operand.isDropped_bit] at hkept
  rw [bitValueOf_references, bitWordOf, Place.read_references, hkept]
  exact List.mem_cons_self

theorem restoreOnReturn_place {restore : Stmt} {op : Operand} {place : Place}
    (h : restoreOnReturn s addr i = .ok restore) (hretp : i.operation = some (.ret .retp)) (hfamily : i.family = .ret)
    (hword : i.WordOnStack) (hop : i.operand .reg = .ok op) (hplace : op.place? s addr = some place)
    (hkept : op.isDropped s addr = false) : place.reference ∈ restore.references := by
  simp only [restoreOnReturn, hretp, hop, ok_bind] at h
  split at h
  · cases h
    cases hplace
    obtain rfl := hword _ _ _ (by simp [hfamily]) hop
    rw [Operand.isDropped_short] at hkept
    rw [Place.write_references, hkept]
    exact List.mem_cons_self
  · cases h

section Needed

variable {slot first second : Slot} {op dst src firstOp secondOp : Operand} {place : Place}

theorem operand_only (hop : i.operand slot = .ok op) (hfirst : i.operand first = .ok firstOp) (hneed : slot ∈ [first]) :
    slot = first ∧ op = firstOp := by
  obtain rfl := List.mem_singleton.1 hneed
  exact ⟨rfl, Except.ok.inj (hop.symm.trans hfirst)⟩

theorem operand_cases (hop : i.operand slot = .ok op) (hfirst : i.operand first = .ok firstOp)
    (hsecond : i.operand second = .ok secondOp) (hneed : slot ∈ [first, second]) :
    (slot = first ∧ op = firstOp) ∨ (slot = second ∧ op = secondOp) := by
  rcases List.mem_cons.1 hneed with rfl | hneed
  · exact .inl ⟨rfl, Except.ok.inj (hop.symm.trans hfirst)⟩
  · exact .inr (operand_only hop hsecond hneed)

/-- A write of a value that refers to the source refers to both operands, unless it is dropped. -/
theorem refers_of_write {value : Expr} {flags : Option FlagPolicy} {stmt : Stmt} (hdst : i.operand .dst = .ok dst)
    (hsrc : i.operand .src = .ok src) (hwrite : dst.write s addr value flags = .ok stmt)
    (hvalue : src.place? s addr = some place → src.isDropped s addr = false → place.reference ∈ value.references)
    (hop : i.operand slot = .ok op) (hplace : op.place? s addr = some place) (hneed : slot ∈ [.dst, .src])
    (hkept : op.isDropped s addr = false) (hwrites : i.Writes v .dst)
    (hwritten : slot = .src → ¬ i.LosesSource v s addr) : place.reference ∈ stmt.references := by
  rcases operand_cases hop hdst hsrc hneed with ⟨rfl, rfl⟩ | ⟨rfl, rfl⟩
  · exact Operand.write_place hwrite hplace hkept
  · have hdstKept := Instruction.kept_of_not_losesSource hdst hwrites (hwritten rfl)
    exact Operand.write_value hwrite hdstKept (hvalue hplace hkept)

/-- Code refers to the place of each operand that its family needs, unless accesses to it are dropped. A return through
a link register does not, and a source goes with its destination if the write to that is dropped. -/
theorem Emits.refers_to_place (h : Emits v s addr i family code) (hfamily : i.family = family) (hword : i.WordOnStack)
    (hop : i.operand slot = .ok op) (hplace : op.place? s addr = some place)
    (hneed : slot ∈ (family.needs i.operation).map Prod.fst) (hkept : op.isDropped s addr = false)
    (hlink : family = .ret → v.linkRegister = none) (hwritten : slot = .src → ¬ i.LosesSource v s addr) :
    place.reference ∈ referencesOf code := by
  cases h with
  | compare dstOperand srcOperand operation dstWidth dstValue srcValue =>
    rw [referencesOf_cons, Stmt.references, List.mem_append, AluOp.mem_result_references]
    rcases operand_cases hop dstOperand srcOperand hneed with ⟨rfl, rfl⟩ | ⟨rfl, rfl⟩
    · exact .inl (.inl (Operand.read_place dstValue hplace hkept))
    · exact .inl (.inr (Operand.read_place srcValue hplace hkept))
  | combine dstOperand srcOperand operation stored dstWidth dstValue srcValue written =>
    have hwrites : i.Writes v .dst := by simp [Instruction.Writes, hfamily, operation, stored]
    refine List.mem_append_left _
      (refers_of_write dstOperand srcOperand written ?_ hop hplace hneed hkept hwrites hwritten)
    exact fun hsrc hfree => AluOp.mem_result_references.2 (.inr (Operand.read_place srcValue hsrc hfree))
  | cmpStep dstOperand srcOperand srcValue step result =>
    rcases operand_cases hop dstOperand srcOperand hneed with ⟨rfl, rfl⟩ | ⟨rfl, rfl⟩
    · cases hplace
    · exact List.mem_append_left _ (List.mem_append_right _ (Operand.read_place srcValue hplace hkept))
  | unary dstOperand | prior dstOperand =>
    obtain ⟨rfl, rfl⟩ := operand_only hop dstOperand hneed
    cases hplace
  | mul dstOperand srcOperand =>
    rcases operand_cases hop dstOperand srcOperand hneed with ⟨rfl, rfl⟩ | ⟨rfl, rfl⟩
    all_goals cases hplace
  | div srcOperand =>
    obtain ⟨rfl, rfl⟩ := operand_only hop srcOperand hneed
    cases hplace
  | shift dstOperand srcOperand counted =>
    rcases operand_cases hop dstOperand srcOperand hneed with ⟨rfl, rfl⟩ | ⟨rfl, rfl⟩
    · cases hplace
    · have hamount := Operand.shiftAmount_place counted hplace hkept
      simp [Stmt.setRegister, Stmt.references, Expr.references, hamount]
  | bit bitOperand =>
    obtain ⟨rfl, rfl⟩ := operand_only hop bitOperand hneed
    cases hplace
    rw [Operand.isDropped_bit] at hkept
    simp [assignBit_references, hkept]
  | bitCompare dstOperand srcOperand operation =>
    rcases operand_cases hop dstOperand srcOperand hneed with ⟨rfl, rfl⟩ | ⟨rfl, rfl⟩
    all_goals
      cases hplace
      simp [compareBits, Stmt.references, Expr.quiet, Expr.references, bitValueOf_place hkept]
  | bitCombine dstOperand srcOperand operation =>
    rcases operand_cases hop dstOperand srcOperand hneed with ⟨rfl, rfl⟩ | ⟨rfl, rfl⟩
    · cases hplace
      rw [Operand.isDropped_bit] at hkept
      simp [Place.write_references, hkept]
    · cases hplace
      have hwrites : i.Writes v .dst := by simp [Instruction.Writes, hfamily, operation]
      have hdst := Instruction.kept_of_not_losesSource dstOperand hwrites (hwritten rfl)
      rw [Operand.isDropped_bit] at hdst
      simp [Place.write_references, hdst, mem_combineBit_references, bitValueOf_place hkept]
  | bitJump bitOperand targetOperand tested =>
    rcases operand_cases hop bitOperand targetOperand hneed with ⟨rfl, rfl⟩ | ⟨rfl, rfl⟩
    · cases hplace
      rw [Operand.isDropped_bit] at hkept
      simp [Stmt.references, Expr.quiet, Expr.references, bitWordOf, Place.read_references, hkept]
    · cases hplace
  | indirectJump indirect baseOperand | indirectCall indirect baseOperand =>
    have hindirect : i.operation = some (.transfer .indirect) := by simpa [Instruction.isIndirect] using indirect
    obtain ⟨rfl, rfl⟩ := operand_only hop baseOperand (by simpa [Family.needs, hindirect] using hneed)
    cases hplace
  | jump direct targetOperand | guardedJump direct targetOperand | call direct targetOperand
  | guardedCall direct targetOperand =>
    have hdirect : i.operation ≠ some (.transfer .indirect) := by simpa [Instruction.isIndirect] using direct
    obtain ⟨rfl, rfl⟩ := operand_only hop targetOperand (by simpa [Family.needs, hdirect] using hneed)
    cases hplace
  | linkedReturn linked =>
    rw [hlink rfl] at linked
    cases linked
  | plainReturn unlinked operation => simp [Family.needs, operation] at hneed
  | restoringReturn unlinked operation restored =>
    by_cases hretp : i.operation = some (.ret .retp)
    · obtain rfl : slot = .reg := by simpa [Family.needs, hretp] using hneed
      have hrestore := restoreOnReturn_place restored hretp hfamily hword hop hplace hkept
      simp [hrestore]
    · simp [Family.needs, hretp] at hneed
  | trap targetOperand =>
    obtain ⟨rfl, rfl⟩ := operand_only hop targetOperand hneed
    cases hplace
  | push regOperand operation =>
    obtain ⟨rfl, rfl⟩ := operand_only hop regOperand hneed
    cases hplace
    obtain rfl := hword _ _ _ (by simp [hfamily]) regOperand
    rw [Operand.isDropped_short] at hkept
    simp [Stmt.references, Place.read_references, hkept]
  | pop regOperand operation =>
    obtain ⟨rfl, rfl⟩ := operand_only hop regOperand hneed
    cases hplace
    obtain rfl := hword _ _ _ (by simp [hfamily]) regOperand
    rw [Operand.isDropped_short] at hkept
    simp [Place.write_references, hkept]
  | scxt dstOperand srcOperand srcValue =>
    have hwrites : i.Writes v .dst := by simp [Instruction.Writes, hfamily]
    refine List.mem_append_right _ (List.mem_append_left _ ?_)
    refine refers_of_write dstOperand srcOperand rfl ?_ hop hplace hneed hkept hwrites hwritten
    exact fun hsrc hfree => Operand.read_place srcValue hsrc hfree
  | pushMove dstOperand srcOperand moved stacked =>
    rcases operand_cases hop dstOperand srcOperand hneed with ⟨rfl, rfl⟩ | ⟨rfl, rfl⟩
    · rw [not_isStackSlot_of_place .preDec hplace] at stacked
      cases stacked
    · exact List.mem_append_left _ (movedValue_place moved hplace hkept)
  | move dstOperand srcOperand moved unstacked written =>
    have hwrites : i.Writes v .dst := by simp [Instruction.Writes, hfamily]
    rw [referencesOf_append, referencesOf_cons]
    refine List.mem_append_right _ (List.mem_append_left _ ?_)
    refine refers_of_write dstOperand srcOperand written ?_ hop hplace hneed hkept hwrites hwritten
    exact fun hsrc hfree => movedValue_place moved hsrc hfree
  | moveExt dstOperand srcOperand srcValue chosen written =>
    have hwrites : i.Writes v .dst := by simp [Instruction.Writes, hfamily]
    refine List.mem_append_left _
      (refers_of_write dstOperand srcOperand written ?_ hop hplace hneed hkept hwrites hwritten)
    intro hsrc hfree
    have hbyte := Operand.read_place srcValue hsrc hfree
    exact hbyte
  | extension extOperand | extensionByRegister extOperand =>
    obtain ⟨rfl, rfl⟩ := operand_only hop extOperand hneed
    cases hplace
  | bitField | powerDown | system | nop => cases hneed

end Needed

end Forms

end Lift166
