import Lift166.Proofs.EncodedOperands

/-!
# Sound code

Code is sound if its registers are used with their own size, its literals fit their size, its flag policies are known
ones, and a temporary is read only after it has been written with the same size. `CodeSound` goes through the code from
the front with the temporaries written so far, as a checker of scopes does. `Emits.sound` goes through the forms that
lifted code can have; everything that is said about parts of the code rests on it.
-/

namespace Lift166

open Il

/-- The registers that lifted code uses for a variant, with the size it uses them at. -/
inductive Variant.Uses (v : Variant) : Register → Nat → Prop
  | general {r : Register} {size : Nat} (own : r.HasSize size) : Uses v r size
  | csp : Uses v .csp 2
  | psw : Uses v .psw 2
  | link {r : Register} (linked : v.linkRegister = some r) : Uses v r 3

/-- An annotation, if there is one, is a known policy. -/
def KnownPolicy (flags : Option FlagPolicy) : Prop :=
  ∀ policy ∈ flags, policy ∈ FlagPolicy.known

theorem knownPolicy_none : KnownPolicy none := by
  rintro policy ⟨⟩

namespace Il

/-- A temporary with the size it was written at. -/
structure Scratch where
  /-- The size in bytes. -/
  size : Nat
  /-- Which temporary it is. -/
  index : Nat
deriving DecidableEq

/-- Every part of the expression is sound where the given temporaries have been written. -/
def Expr.Sound (v : Variant) (written : List Scratch) : Expr → Prop
  | .reg size (.machine r) => v.Uses r size
  | .reg size (.temp index) => ⟨size, index⟩ ∈ written
  | .const size value => LiteralFits size value
  | .pointer size value => size = 3 ∧ LiteralFits 3 value
  | .load _ address => address.Sound v written
  | .unary _ _ flags arg => KnownPolicy flags ∧ arg.Sound v written
  | .binary _ _ flags lhs rhs => KnownPolicy flags ∧ lhs.Sound v written ∧ rhs.Sound v written
  | .withCarry _ _ flags lhs rhs carry =>
    KnownPolicy flags ∧ lhs.Sound v written ∧ rhs.Sound v written ∧ carry.Sound v written
  | .flag _ | .pop _ | .unimplemented => True

/-- A constant to branch to has the size of an address. -/
def Expr.Reachable : Expr → Prop
  | .const size _ => size = 3
  | _ => True

def Stmt.Sound (v : Variant) (written : List Scratch) : Stmt → Prop
  | .setReg size flags (.machine r) value => v.Uses r size ∧ KnownPolicy flags ∧ value.Sound v written
  | .setReg _ flags (.temp _) value => KnownPolicy flags ∧ value.Sound v written
  | .store _ flags address value => KnownPolicy flags ∧ address.Sound v written ∧ value.Sound v written
  | .jump dest | .call dest => dest.Reachable ∧ dest.Sound v written
  | .setFlag _ value | .push _ value | .eval value | .ret value | .ifElse value _ _ => value.Sound v written
  | .noReturn | .nop | .unimplemented | .goto _ | .label _ => True

/-- The temporary that a statement writes. -/
def Stmt.scratch : Stmt → List Scratch
  | .setReg size _ (.temp index) _ => [⟨size, index⟩]
  | _ => []

/-- Every statement is sound after the ones before it. -/
def CodeSound (v : Variant) (written : List Scratch) : List Stmt → Prop
  | [] => True
  | stmt :: rest => stmt.Sound v written ∧ CodeSound v (written ++ stmt.scratch) rest

/-! ## More temporaries do no harm -/

theorem Expr.Sound.mono {v : Variant} {written more : List Scratch} (hsub : written ⊆ more) {e : Expr}
    (h : e.Sound v written) : e.Sound v more := by
  induction e with
  | reg size var =>
    cases var with
    | machine r => exact h
    | temp index => exact hsub h
  | load size address ih => exact ih h
  | unary op size flags arg ih => exact ⟨h.1, ih h.2⟩
  | binary op size flags lhs rhs ihl ihr => exact ⟨h.1, ihl h.2.1, ihr h.2.2⟩
  | withCarry op size flags lhs rhs carry ihl ihr ihc => exact ⟨h.1, ihl h.2.1, ihr h.2.2.1, ihc h.2.2.2⟩
  | _ => exact h

theorem Stmt.Sound.mono {v : Variant} {written more : List Scratch} (hsub : written ⊆ more) {stmt : Stmt}
    (h : stmt.Sound v written) : stmt.Sound v more := by
  cases stmt with
  | setReg size flags var value =>
    cases var with
    | machine r => exact ⟨h.1, h.2.1, h.2.2.mono hsub⟩
    | temp index => exact ⟨h.1, h.2.mono hsub⟩
  | store size flags address value => exact ⟨h.1, h.2.1.mono hsub, h.2.2.mono hsub⟩
  | jump dest => exact ⟨h.1, h.2.mono hsub⟩
  | call dest => exact ⟨h.1, h.2.mono hsub⟩
  | setFlag | push | eval | ret | ifElse => exact Expr.Sound.mono hsub h
  | _ => trivial

/-- Code that reads no temporary is sound if its statements are. -/
theorem codeSound_of_forall {v : Variant} {written : List Scratch} {code : List Stmt}
    (h : ∀ stmt ∈ code, stmt.Sound v written) : CodeSound v written code := by
  induction code generalizing written with
  | nil => trivial
  | cons stmt rest ih =>
    rw [List.forall_mem_cons] at h
    refine ⟨h.1, ih fun later hlater => ?_⟩
    exact (h.2 later hlater).mono (List.subset_append_left _ _)

/-! ## Shorthands -/

section Shorthands

variable {v : Variant} {written : List Scratch} {size : Nat}

theorem Expr.const_sound {value : Int} (h : LiteralFits size value) : (Expr.const size value).Sound v written :=
  h

theorem Expr.register_sound {r : Register} (h : r.HasSize size) : (Expr.register size r).Sound v written :=
  .general h

theorem Expr.load_sound {address : Expr} (h : address.Sound v written) : (Expr.load size address).Sound v written :=
  h

theorem Expr.quietUnary_sound {op : UnaryOp} {arg : Expr} (h : arg.Sound v written) :
    (Expr.quietUnary op size arg).Sound v written :=
  ⟨knownPolicy_none, h⟩

theorem Expr.quiet_sound {op : BinaryOp} {lhs rhs : Expr} (hlhs : lhs.Sound v written) (hrhs : rhs.Sound v written) :
    (Expr.quiet op size lhs rhs).Sound v written :=
  ⟨knownPolicy_none, hlhs, hrhs⟩

theorem Stmt.setRegister_sound {r : Register} {value : Expr} (hr : r.HasSize size) (hvalue : value.Sound v written) :
    (Stmt.setRegister size r value).Sound v written :=
  ⟨.general hr, knownPolicy_none, hvalue⟩

end Shorthands

end Il

/-! ## Places -/

section Parts

variable {v : Variant} {written : List Scratch} {s : Store} {addr : Int}

/-- A special function register has an address of its own. -/
theorem SpecialRegister.address_literalFits (r : SpecialRegister) : LiteralFits 3 r.address := by
  cases r <;> decide

theorem SpecialRegister.load_sound (r : SpecialRegister) : r.load.Sound v written :=
  ⟨rfl, r.address_literalFits⟩

theorem SpecialRegister.store_sound (r : SpecialRegister) {value : Expr} (h : value.Sound v written) :
    (r.store value).Sound v written :=
  ⟨knownPolicy_none, ⟨rfl, r.address_literalFits⟩, h⟩

/-- The place can be read and written with so many bytes. -/
def Place.Addressable (width : Nat) : Place → Prop
  | gpr r => r.HasSize width
  | sfr address => LiteralFits 3 address

theorem Place.ofShort_addressable (s : Store) (addr : Int) (code : Fin 256) {width : Nat}
    (h : width = 1 ∨ width = 2) : (Place.ofShort s addr code.val width).Addressable width := by
  have hcode := code.isLt
  unfold ofShort
  split
  · exact Register.ofField_hasSize _ h
  · have hfits : LiteralFits 3 ((if s.hasRegisterBank addr then 0xF000 else 0xFE00) + 2 * (code.val : Int)) := by
      unfold LiteralFits
      split <;> omega
    exact hfits

theorem Place.ofBitOffset_addressable (s : Store) (addr : Int) {offset : Int} (h : LiteralFits 1 offset) :
    (Place.ofBitOffset s addr offset).Addressable 2 := by
  have hlow : lowBits 7 offset < 128 := lowBits_lt 7 offset
  unfold LiteralFits at h
  unfold ofBitOffset lastBitMemoryOffset
  split
  · have hfits : LiteralFits 3 (0xFD00 + 2 * offset) := by
      unfold LiteralFits
      omega
    exact hfits
  · split
    · have hfits :
          LiteralFits 3 ((if s.hasRegisterBank addr then 0xF100 else 0xFF00) + 2 * (lowBits 7 offset : Int)) := by
        unfold LiteralFits
        split <;> omega
      exact hfits
    · exact Register.ofField_hasSize _ (.inr rfl)

theorem Place.read_sound {place : Place} {width : Nat} (h : place.Addressable width) :
    (place.read width).Sound v written := by
  cases place with
  | gpr r => exact .general h
  | sfr address =>
    cases hfixed : Lift166.fixedWord? address with
    | none =>
      simp only [read, hfixed]
      exact ⟨rfl, h⟩
    | some value =>
      simp only [read, hfixed]
      -- a fixed word is cut to the width it is read with
      have hpos : 0 < 1 <<< (8 * width) := by
        rw [Nat.one_shiftLeft]
        exact Nat.two_pow_pos _
      exact literalFits_of_lt (Nat.mod_lt value hpos)

theorem Place.write_sound {place : Place} {width : Nat} {value : Expr} {flags : Option FlagPolicy}
    (h : place.Addressable width) (hflags : KnownPolicy flags) (hvalue : value.Sound v written) :
    (place.write width value flags).Sound v written := by
  cases place with
  | gpr r => exact ⟨.general h, hflags, hvalue⟩
  | sfr address =>
    cases hfixed : Lift166.fixedWord? address with
    | none =>
      simp only [write, hfixed]
      exact ⟨hflags, ⟨rfl, h⟩, hvalue⟩
    | some fixed =>
      simp only [write, hfixed]
      trivial

/-! ## Addresses -/

theorem Page.address_lt (page : Page) (offset : Nat) : page.address offset < 0x1000000 := by
  have hpage := page.isLt
  have hoffset : offset % 0x4000 < 0x4000 := Nat.mod_lt _ (by decide)
  unfold address
  omega

/-- Under any regime a memory operand is in the address space. -/
theorem Regime.physical_lt (regime : Regime) (raw : Fin 65536) : regime.physical raw < 0x1000000 := by
  cases regime with
  | page p => exact p.address_lt _
  | segment n =>
    have hsegment := n.isLt
    have hraw := raw.isLt
    simp only [physical]
    omega
  | pointers dpp => exact Page.address_lt _ _

theorem Regime.physical_literalFits (regime : Regime) (raw : Fin 65536) : LiteralFits 3 (regime.physical raw) :=
  literalFits_of_lt (regime.physical_lt raw)

theorem pointerBase_sound {base : Register} {disp : Int} (hbase : base.HasSize 2) (hdisp : LiteralFits 2 disp) :
    (pointerBase base disp).Sound v written := by
  unfold pointerBase
  split
  · exact Expr.register_sound hbase
  · exact Expr.quiet_sound (Expr.register_sound hbase) hdisp

theorem pageOffset_sound {pointer : Expr} (h : pointer.Sound v written) : (pageOffset pointer).Sound v written :=
  Expr.quiet_sound h (Expr.const_sound (by decide))

theorem selectedPage_sound {pointer : Expr} (h : pointer.Sound v written) : (selectedPage pointer).Sound v written := by
  have hslot : (Expr.quiet .lsr 2 pointer (.const 1 14)).Sound v written :=
    Expr.quiet_sound h (Expr.const_sound (by decide))
  have hoffset : (Expr.quiet .lsl 2 (.quiet .lsr 2 pointer (.const 1 14)) (.const 1 1)).Sound v written :=
    Expr.quiet_sound hslot (Expr.const_sound (by decide))
  exact Expr.load_sound (Expr.quiet_sound ⟨rfl, SpecialRegister.dpp0.address_literalFits⟩ hoffset)

theorem indirectAddress_sound {base : Register} {disp : Int} (hbase : base.HasSize 2) (hdisp : LiteralFits 2 disp) :
    (indirectAddress s addr base disp).Sound v written := by
  have hpointer : (pointerBase base disp).Sound v written := pointerBase_sound hbase hdisp
  simp only [indirectAddress]
  split
  · have hsegment := (s.get addr).segment.isLt
    exact Expr.quiet_sound (literalFits_of_lt (by omega)) hpointer
  · split
    · have hpage := (s.get addr).page.isLt
      exact Expr.quiet_sound (literalFits_of_lt (by omega)) (pageOffset_sound hpointer)
    · have hpage : (Expr.quiet .lsl 3 (selectedPage (pointerBase base disp)) (.const 1 14)).Sound v written :=
        Expr.quiet_sound (selectedPage_sound hpointer) (Expr.const_sound (by decide))
      exact Expr.quiet_sound hpage (pageOffset_sound hpointer)

theorem IndirectMode.displacement_literalFits (mode : IndirectMode) {disp : Int} (h : LiteralFits 2 disp) :
    LiteralFits 2 (mode.displacement disp) := by
  cases mode
  case disp => exact h
  all_goals exact (by decide : LiteralFits 2 0)

/-! ## Operands -/

variable {op : Operand}

theorem Operand.read_sound {e : Expr} (hop : op.Encodable) (h : op.read s addr = .ok e) : e.Sound v written := by
  cases op
  all_goals cases h
  case reg r width => exact .general hop
  case short code width => exact Place.read_sound (Place.ofShort_addressable s addr code hop)
  case imm value width => exact hop
  case mem raw width => exact ⟨rfl, Regime.physical_literalFits _ raw⟩
  case indirect base mode width disp =>
    exact indirectAddress_sound hop.1 (mode.displacement_literalFits hop.2.2)

theorem Operand.write_sound {value : Expr} {flags : Option FlagPolicy} {stmt : Stmt} (hop : op.Encodable)
    (hflags : KnownPolicy flags) (hvalue : value.Sound v written) (h : op.write s addr value flags = .ok stmt) :
    stmt.Sound v written := by
  cases op
  all_goals cases h
  case reg r width => exact ⟨.general hop, hflags, hvalue⟩
  case short code width => exact Place.write_sound (Place.ofShort_addressable s addr code hop) hflags hvalue
  case mem raw width => exact ⟨hflags, ⟨rfl, Regime.physical_literalFits _ raw⟩, hvalue⟩
  case indirect base mode width disp =>
    exact ⟨hflags, indirectAddress_sound hop.1 (mode.displacement_literalFits hop.2.2), hvalue⟩

/-- Stepping a pointer adds or subtracts the width of what it points to. -/
theorem Operand.step_sound (hop : op.Encodable) (mode : IndirectMode) :
    ∀ stmt ∈ op.step mode, stmt.Sound v written := by
  intro stmt hstmt
  cases op
  case indirect base m width disp =>
    obtain ⟨hbase, hwidth, -⟩ := hop
    have hfits : LiteralFits 2 width := literalFits_of_lt (by omega)
    simp only [step] at hstmt
    split at hstmt
    · rw [List.mem_singleton.1 hstmt]
      exact Stmt.setRegister_sound hbase (Expr.quiet_sound (Expr.register_sound hbase) hfits)
    · cases hstmt
  all_goals cases hstmt

/-! ## Emitters -/

theorem shiftAmount_sound {amount : Expr} (hop : op.Encodable)
    (hcount : ∀ value width, op = .imm value width → LiteralFits 1 value.val)
    (h : shiftAmount s addr op = .ok amount) : amount.Sound v written := by
  unfold shiftAmount at h
  split at h
  · next value width =>
    cases h
    exact hcount value width rfl
  · obtain ⟨read, hread, rfl⟩ := map_ok_iff.1 h
    exact Expr.quiet_sound (Operand.read_sound hop hread) (Expr.const_sound (by decide))

theorem movedValue_sound {value : Expr} (hop : op.Encodable) (h : movedValue v s addr op = .ok value) :
    value.Sound v written := by
  unfold movedValue at h
  split at h
  · cases h
    trivial
  · exact Operand.read_sound hop h

theorem AluOp.result_sound (op : AluOp) (width : Nat) {lhs rhs : Expr} {flags : Option FlagPolicy}
    (hflags : KnownPolicy flags) (hlhs : lhs.Sound v written) (hrhs : rhs.Sound v written) :
    (op.result width lhs rhs flags).Sound v written := by
  cases op
  case addc | subc => exact ⟨hflags, hlhs, hrhs, trivial⟩
  all_goals exact ⟨hflags, hlhs, hrhs⟩

theorem longDividend_sound : longDividend.Sound v written := by
  have hhigh : (Expr.quietUnary .zx 4 SpecialRegister.mdh.load).Sound v written :=
    Expr.quietUnary_sound SpecialRegister.mdh.load_sound
  have hlow : (Expr.quietUnary .zx 4 SpecialRegister.mdl.load).Sound v written :=
    Expr.quietUnary_sound SpecialRegister.mdl.load_sound
  exact Expr.quiet_sound (Expr.quiet_sound hhigh (Expr.const_sound (by decide))) hlow

theorem divisionOf_sound (operation : Option Operation) : (divisionOf operation).2.2.Sound v written := by
  unfold divisionOf
  split
  · exact SpecialRegister.mdl.load_sound
  · exact SpecialRegister.mdl.load_sound
  · exact longDividend_sound
  · exact longDividend_sound

theorem guard_sound {i : Instruction} {cond : Expr} (h : i.guard? = some cond) : cond.Sound v written := by
  obtain ⟨code, -, htest⟩ := Option.bind_eq_some_iff.1 h
  cases code <;> cases htest <;> simp [Expr.quiet, Expr.Sound, knownPolicy_none, LiteralFits]

theorem inOwnSegment_sound (addr : Int) {base : Register} (h : base.HasSize 2) :
    (inOwnSegment addr base).Sound v written := by
  have hbase := segmentBase_lt addr
  exact Expr.quiet_sound (literalFits_of_lt (by omega)) (Expr.quietUnary_sound (Expr.register_sound h))

section Bits

variable {offset : Int} (pos : Fin 16)

theorem bitMask_lt : bitMask pos < 65536 := by
  revert pos
  decide

theorem bitMask_sound : (Expr.const 2 (bitMask pos)).Sound v written :=
  literalFits_of_lt (bitMask_lt pos)

theorem bitHole_sound : (Expr.const 2 (bitHole pos)).Sound v written := by
  refine literalFits_of_lt ?_
  unfold bitHole
  omega

theorem bitPosition_sound : (Expr.const 1 pos.val).Sound v written := by
  have hlt := pos.isLt
  exact literalFits_of_lt (by omega)

theorem bitWordOf_sound (h : LiteralFits 1 offset) : (bitWordOf s addr offset).Sound v written :=
  Place.read_sound (Place.ofBitOffset_addressable s addr h)

theorem bitValueOf_sound (h : LiteralFits 1 offset) : (bitValueOf s addr offset pos).Sound v written :=
  Expr.quiet_sound (Expr.quiet_sound (bitWordOf_sound h) (bitPosition_sound pos)) (Expr.const_sound (by decide))

theorem assignBit_sound (h : LiteralFits 1 offset) (value : Bool) :
    (assignBit s addr offset pos value).Sound v written := by
  have hplace := Place.ofBitOffset_addressable s addr h
  refine Place.write_sound hplace knownPolicy_none ?_
  cases value
  · exact Expr.quiet_sound (Place.read_sound hplace) (bitHole_sound pos)
  · exact Expr.quiet_sound (Place.read_sound hplace) (bitMask_sound pos)

theorem combineBit_sound (operation : Option Operation) {word bit : Expr} (hword : word.Sound v written)
    (hbit : bit.Sound v written) : (combineBit operation word bit pos).Sound v written := by
  have hplaced : ∀ b : Expr, b.Sound v written → (Expr.quiet .lsl 2 b (.const 1 pos.val)).Sound v written :=
    fun b hb => Expr.quiet_sound hb (bitPosition_sound pos)
  have hcleared : (Expr.quiet .and 2 word (.const 2 (bitHole pos))).Sound v written :=
    Expr.quiet_sound hword (bitHole_sound pos)
  unfold combineBit
  split
  · exact Expr.quiet_sound hcleared (hplaced bit hbit)
  · exact Expr.quiet_sound hcleared (hplaced _ (Expr.quiet_sound hbit (Expr.const_sound (by decide))))
  · exact Expr.quiet_sound hword (Expr.quiet_sound (bitHole_sound pos) (hplaced bit hbit))
  · exact Expr.quiet_sound hword (hplaced bit hbit)
  · exact Expr.quiet_sound hword (hplaced bit hbit)

theorem compareBits_sound {dst src : Expr} (hdst : dst.Sound v written) (hsrc : src.Sound v written) :
    ∀ stmt ∈ compareBits dst src, stmt.Sound v written := by
  have hboth : ∀ op : BinaryOp, (Expr.quiet op 2 src dst).Sound v written := fun op => Expr.quiet_sound hsrc hdst
  have hnone : (Expr.quiet .equal 2 (.quiet .or 2 src dst) (.const 2 0)).Sound v written :=
    Expr.quiet_sound (hboth .or) (Expr.const_sound (by decide))
  have hclear : (Expr.const 1 0).Sound v written := Expr.const_sound (by decide)
  simp only [compareBits, List.forall_mem_cons]
  exact ⟨hclear, hnone, hboth .or, hboth .and, hboth .xor, List.forall_mem_nil _⟩

/-- A jump on a bit tests the word for the bit alone, set or clear. -/
theorem bitTest_sound (h : LiteralFits 1 offset) {operation : Option Operation} {expected : Nat}
    (hexpected : expected = if jumpsOnSet operation then bitMask pos else 0) :
    (Expr.quiet .equal 2 (.quiet .and 2 (bitWordOf s addr offset) (.const 2 (bitMask pos)))
      (.const 2 expected)).Sound v written := by
  refine Expr.quiet_sound (Expr.quiet_sound (bitWordOf_sound h) (bitMask_sound pos)) ?_
  rw [hexpected]
  split
  · exact bitMask_sound pos
  · exact Expr.const_sound (by decide)

theorem bitJumpEffect_sound (h : LiteralFits 1 offset) (operation : Option Operation) :
    ∀ stmt ∈ bitJumpEffect s addr offset pos operation, stmt.Sound v written := by
  unfold bitJumpEffect
  split
  · exact List.forall_mem_singleton.2 (assignBit_sound pos h false)
  · exact List.forall_mem_singleton.2 (assignBit_sound pos h true)
  · exact List.forall_mem_nil _

end Bits

theorem restoreOnReturn_sound {i : Instruction} {restore : Stmt} (h : restoreOnReturn s addr i = .ok restore) :
    restore.Sound v written := by
  unfold restoreOnReturn at h
  split at h
  · cases h
    exact ⟨.csp, knownPolicy_none, trivial⟩
  · simp only [bind_ok_iff] at h
    obtain ⟨op, -, h⟩ := h
    split at h
    · next code width =>
      cases h
      exact Place.write_sound (Place.ofShort_addressable s addr code (.inr rfl)) knownPolicy_none trivial
    · cases h
  · cases h
    exact ⟨.psw, knownPolicy_none, trivial⟩

end Parts

/-! ## Lifted code -/

section Code

variable {v : Variant} {s : Store} {addr : Int} {i : Instruction}

/-- One statement that reads no temporary is sound code. -/
theorem codeSound_singleton {stmt : Stmt} (h : stmt.Sound v []) : CodeSound v [] [stmt] :=
  ⟨h, trivial⟩

/-- A product is kept in a temporary until both of its halves are stored. -/
theorem product_sound {lhs rhs : Register} (op : BinaryOp) (hlhs : lhs.HasSize 2) (hrhs : rhs.HasSize 2)
    (hflags : KnownPolicy i.flags) :
    CodeSound v [] [.setTemp 4 0 (.binary op 4 i.flags (.register 2 lhs) (.register 2 rhs)),
      SpecialRegister.mdl.store (.quietUnary .lowPart 2 (.temp 4 0)),
      SpecialRegister.mdh.store (.quietUnary .lowPart 2 (.quiet .lsr 4 (.temp 4 0) (.const 1 16)))] := by
  have hproduct : (Expr.temp 4 0).Sound v [⟨4, 0⟩] := List.mem_singleton.2 rfl
  have hshifted : (Expr.quiet .lsr 4 (.temp 4 0) (.const 1 16)).Sound v [⟨4, 0⟩] :=
    Expr.quiet_sound hproduct (Expr.const_sound (by decide))
  refine ⟨⟨knownPolicy_none, hflags, Expr.register_sound hlhs, Expr.register_sound hrhs⟩, ?_, ?_, trivial⟩
  · exact SpecialRegister.mdl.store_sound (Expr.quietUnary_sound hproduct)
  · exact SpecialRegister.mdh.store_sound (Expr.quietUnary_sound hshifted)

/-- A quotient and a remainder are kept in two temporaries until both are known. -/
theorem quotient_sound {r : Register} {quotient remainder : BinaryOp} {dividend : Expr} (hr : r.HasSize 2)
    (hflags : KnownPolicy i.flags) (hdividend : ∀ written, dividend.Sound v written) :
    CodeSound v [] [.setTemp 2 0 (.binary quotient 2 i.flags dividend (.register 2 r)),
      .setTemp 2 1 (.quiet remainder 2 dividend (.register 2 r)),
      SpecialRegister.mdl.store (.temp 2 0), SpecialRegister.mdh.store (.temp 2 1)] := by
  have hfirst : (Expr.temp 2 0).Sound v [⟨2, 0⟩, ⟨2, 1⟩] := List.mem_cons_self
  have hsecond : (Expr.temp 2 1).Sound v [⟨2, 0⟩, ⟨2, 1⟩] := List.mem_cons_of_mem _ List.mem_cons_self
  refine ⟨⟨knownPolicy_none, hflags, hdividend _, Expr.register_sound hr⟩, ⟨knownPolicy_none, ?_⟩, ?_, ?_, trivial⟩
  · exact Expr.quiet_sound (hdividend _) (Expr.register_sound hr)
  · exact SpecialRegister.mdl.store_sound hfirst
  · exact SpecialRegister.mdh.store_sound hsecond

/-- Compare-and-step moves by a literal that is never negative. -/
theorem stepped_sound {r : Register} {amount : Int} (hr : r.HasSize 2) (hrange : -2 ≤ amount ∧ amount ≤ 2) :
    (if 0 < amount then Expr.quiet .add 2 (.register 2 r) (.const 2 amount)
      else .quiet .sub 2 (.register 2 r) (.const 2 (-amount))).Sound v [] := by
  split
  · have hfits : LiteralFits 2 amount := by
      unfold LiteralFits
      omega
    exact Expr.quiet_sound (Expr.register_sound hr) hfits
  · have hfits : LiteralFits 2 (-amount) := by
      unfold LiteralFits
      omega
    exact Expr.quiet_sound (Expr.register_sound hr) hfits

/-- Whatever form the lifted code of an instruction has, it is sound if the instruction holds what an encoding can
hold. -/
theorem Emits.sound {code : List Stmt} (hi : i.Regular) (h : Emits v s addr i i.family code) : CodeSound v [] code := by
  have hflags : KnownPolicy i.flags := hi.policies
  have hwords : ∀ {family}, i.family = family → family ∈ wordFamilies → ∀ {slot r width},
      i.operand slot = .ok (.reg r width) → r.HasSize 2 := fun hfamily hmem => hi.words (hfamily ▸ hmem)
  have hread : ∀ {slot op e}, i.operand slot = .ok op → op.read s addr = .ok e → e.Sound v [] :=
    fun hop he => Operand.read_sound (hi.operands hop) he
  have hstep : ∀ {slot op} mode, i.operand slot = .ok op → ∀ stmt ∈ op.step mode, stmt.Sound v [] :=
    fun mode hop => Operand.step_sound (hi.operands hop) mode
  have hbit : ∀ {slot offset pos}, i.operand slot = .ok (.bit offset pos) → (bitValueOf s addr offset pos).Sound v [] :=
    fun hop => bitValueOf_sound _ (hi.operands hop)
  generalize hfamily : i.family = family at h
  cases h with
  | @compare _ _ width _ _ dstOperand srcOperand operation dstWidth dstValue srcValue =>
    have hresult := AluOp.cmp.result_sound width hflags (hread dstOperand dstValue) (hread srcOperand srcValue)
    exact codeSound_of_forall (List.forall_mem_cons.2 ⟨hresult, hstep _ srcOperand⟩)
  | @combine _ _ op width _ _ _ dstOperand srcOperand operation stored dstWidth dstValue srcValue written =>
    have hresult := op.result_sound width hflags (hread dstOperand dstValue) (hread srcOperand srcValue)
    have hstmt := Operand.write_sound (hi.operands dstOperand) knownPolicy_none hresult written
    exact codeSound_of_forall (List.forall_mem_cons.2 ⟨hstmt, hstep _ srcOperand⟩)
  | cmpStep dstOperand srcOperand srcValue step result =>
    have hr := hwords hfamily (by decide) dstOperand
    subst result
    refine ⟨⟨hflags, Expr.register_sound hr, hread srcOperand srcValue⟩, ?_, trivial⟩
    exact Stmt.setRegister_sound hr (stepped_sound hr (hi.steps hfamily step))
  | unary dstOperand chosen =>
    have hr : Register.HasSize _ _ := hi.operands dstOperand
    exact codeSound_singleton (Stmt.setRegister_sound hr ⟨hflags, Expr.register_sound hr⟩)
  | mul dstOperand srcOperand chosen =>
    exact product_sound _ (hwords hfamily (by decide) dstOperand) (hwords hfamily (by decide) srcOperand) hflags
  | div srcOperand chosen =>
    have hdividend : ∀ written, (divisionOf i.operation).2.2.Sound v written := fun _ => divisionOf_sound i.operation
    rw [chosen] at hdividend
    exact quotient_sound (hwords hfamily (by decide) srcOperand) hflags hdividend
  | @shift _ _ _ amount dstOperand srcOperand counted =>
    have hr := hwords hfamily (by decide) dstOperand
    have hamount : amount.Sound v [] := by
      refine shiftAmount_sound (hi.operands srcOperand) (fun value width himm => ?_) counted
      subst himm
      exact hi.counts hfamily srcOperand
    exact codeSound_singleton (Stmt.setRegister_sound hr ⟨hflags, Expr.register_sound hr, hamount⟩)
  | prior dstOperand =>
    exact codeSound_singleton (Stmt.setRegister_sound (hwords hfamily (by decide) dstOperand) trivial)
  | bit bitOperand => exact codeSound_singleton (assignBit_sound _ (hi.operands bitOperand) _)
  | bitCompare dstOperand srcOperand operation =>
    exact codeSound_of_forall (compareBits_sound (hbit dstOperand) (hbit srcOperand))
  | @bitCombine _ _ dstPos _ dstOperand srcOperand operation =>
    have hplace := Place.ofBitOffset_addressable s addr (hi.operands dstOperand)
    have hresult := combineBit_sound dstPos i.operation (Place.read_sound hplace) (hbit srcOperand)
    exact codeSound_singleton (Place.write_sound hplace hflags hresult)
  | @bitJump offset target pos expected bitOperand targetOperand tested =>
    have hjump : (Stmt.jump (.const 3 target)).Sound v [] := ⟨rfl, hi.operands targetOperand⟩
    refine codeSound_of_forall (List.forall_mem_cons.2 ⟨bitTest_sound pos (hi.operands bitOperand) tested, ?_⟩)
    refine List.forall_mem_cons.2 ⟨trivial, List.forall_mem_append.2 ⟨?_, ?_⟩⟩
    · exact bitJumpEffect_sound pos (hi.operands bitOperand) i.operation
    · exact List.forall_mem_cons.2 ⟨hjump, List.forall_mem_singleton.2 trivial⟩
  | indirectJump indirect baseOperand =>
    exact codeSound_singleton ⟨trivial, inOwnSegment_sound addr (hi.operands baseOperand).1⟩
  | jump direct targetOperand unguarded => exact codeSound_singleton ⟨rfl, hi.operands targetOperand⟩
  | guardedJump direct targetOperand guarded =>
    exact ⟨guard_sound guarded, trivial, ⟨rfl, hi.operands targetOperand⟩, trivial, trivial⟩
  | indirectCall indirect baseOperand =>
    exact codeSound_singleton ⟨trivial, inOwnSegment_sound addr (hi.operands baseOperand).1⟩
  | call direct targetOperand unguarded => exact codeSound_singleton ⟨rfl, hi.operands targetOperand⟩
  | guardedCall direct targetOperand guarded =>
    exact ⟨guard_sound guarded, trivial, ⟨rfl, hi.operands targetOperand⟩, trivial, trivial, trivial⟩
  | linkedReturn linked => exact codeSound_singleton (.link linked)
  | plainReturn => exact codeSound_singleton trivial
  | restoringReturn unlinked operation restored =>
    refine ⟨⟨knownPolicy_none, trivial⟩, restoreOnReturn_sound restored, ?_, trivial⟩
    exact List.mem_append_left _ (List.mem_singleton.2 rfl)
  | trap targetOperand => exact codeSound_singleton ⟨rfl, hi.operands targetOperand⟩
  | push regOperand operation =>
    exact codeSound_singleton (Place.read_sound (Place.ofShort_addressable s addr _ (.inr rfl)))
  | pop regOperand operation =>
    exact codeSound_singleton (Place.write_sound (Place.ofShort_addressable s addr _ (.inr rfl)) hflags trivial)
  | @scxt shortCode _ _ _ dstOperand srcOperand srcValue =>
    have hplace := Place.ofShort_addressable s addr shortCode (hi.operands dstOperand)
    exact ⟨Place.read_sound (Place.ofShort_addressable s addr shortCode (.inr rfl)),
      Place.write_sound hplace knownPolicy_none (hread srcOperand srcValue), trivial⟩
  | pushMove dstOperand srcOperand moved stacked =>
    exact codeSound_singleton (movedValue_sound (hi.operands srcOperand) moved)
  | @move dst src value _ dstOperand srcOperand moved unstacked written =>
    have hvalue : value.Sound v [] := movedValue_sound (hi.operands srcOperand) moved
    have hstmt := Operand.write_sound (hi.operands dstOperand) hflags hvalue written
    have hsource : ∀ stmt ∈ (if src.isStackSlot v .postInc then [] else src.step .postInc), stmt.Sound v [] := by
      split
      · exact List.forall_mem_nil _
      · exact hstep .postInc srcOperand
    refine codeSound_of_forall (List.forall_mem_append.2 ⟨hstep _ dstOperand, List.forall_mem_cons.2 ⟨hstmt, ?_⟩⟩)
    exact List.forall_mem_append.2 ⟨hsource, hstep _ dstOperand⟩
  | moveExt dstOperand srcOperand srcValue chosen written =>
    have hbyte := hread srcOperand srcValue
    exact codeSound_singleton
      (Operand.write_sound (hi.operands dstOperand) hflags (Expr.quietUnary_sound hbyte) written)
  | bitField | powerDown | system | nop | extension | extensionByRegister => exact codeSound_singleton trivial

end Code

/-! ## Parts of sound code -/

namespace Il

/-- The expression and everything that it is made of. -/
def Expr.nodes : Expr → List Expr
  | .load size address => .load size address :: address.nodes
  | .unary op size flags arg => .unary op size flags arg :: arg.nodes
  | .binary op size flags lhs rhs => .binary op size flags lhs rhs :: (lhs.nodes ++ rhs.nodes)
  | .withCarry op size flags lhs rhs carry =>
    .withCarry op size flags lhs rhs carry :: (lhs.nodes ++ (rhs.nodes ++ carry.nodes))
  | e => [e]

/-- The expressions that a statement holds. -/
def Stmt.values : Stmt → List Expr
  | .store _ _ address value => [address, value]
  | .setReg _ _ _ value | .setFlag _ value | .push _ value | .eval value => [value]
  | .jump dest | .call dest | .ret dest => [dest]
  | .ifElse cond _ _ => [cond]
  | .noReturn | .nop | .unimplemented | .goto _ | .label _ => []

def Stmt.nodes (stmt : Stmt) : List Expr :=
  stmt.values.flatMap Expr.nodes

/-- Every expression in the code, whatever it is a part of. -/
def nodesOf (code : List Stmt) : List Expr :=
  code.flatMap Stmt.nodes

variable {v : Variant} {written : List Scratch} {node : Expr} {code : List Stmt}

theorem Expr.Sound.of_mem_nodes {e : Expr} (h : e.Sound v written) (hnode : node ∈ e.nodes) : node.Sound v written := by
  induction e with
  | load size address ih =>
    rcases List.mem_cons.1 hnode with rfl | hnode
    · exact h
    · exact ih h hnode
  | unary op size flags arg ih =>
    rcases List.mem_cons.1 hnode with rfl | hnode
    · exact h
    · exact ih h.2 hnode
  | binary op size flags lhs rhs ihl ihr =>
    rw [nodes, List.mem_cons, List.mem_append] at hnode
    rcases hnode with rfl | hnode | hnode
    · exact h
    · exact ihl h.2.1 hnode
    · exact ihr h.2.2 hnode
  | withCarry op size flags lhs rhs carry ihl ihr ihc =>
    rw [nodes, List.mem_cons, List.mem_append, List.mem_append] at hnode
    rcases hnode with rfl | hnode | hnode | hnode
    · exact h
    · exact ihl h.2.1 hnode
    · exact ihr h.2.2.1 hnode
    · exact ihc h.2.2.2 hnode
  | _ =>
    cases List.mem_singleton.1 hnode
    exact h

/-- A sound statement holds sound expressions only. -/
theorem Stmt.Sound.values {stmt : Stmt} (h : stmt.Sound v written) : ∀ e ∈ stmt.values, e.Sound v written := by
  cases stmt with
  | setReg size flags var value =>
    cases var with
    | machine r => exact List.forall_mem_singleton.2 h.2.2
    | temp index => exact List.forall_mem_singleton.2 h.2
  | store size flags address value => exact List.forall_mem_cons.2 ⟨h.2.1, List.forall_mem_singleton.2 h.2.2⟩
  | jump dest => exact List.forall_mem_singleton.2 h.2
  | call dest => exact List.forall_mem_singleton.2 h.2
  | setFlag | push | eval | ret | ifElse => exact List.forall_mem_singleton.2 h
  | _ => exact List.forall_mem_nil _

theorem Stmt.Sound.of_mem_nodes {stmt : Stmt} (h : stmt.Sound v written) (hnode : node ∈ stmt.nodes) :
    node.Sound v written := by
  obtain ⟨e, he, hnode⟩ := List.mem_flatMap.1 hnode
  exact (h.values e he).of_mem_nodes hnode

/-- A statement in sound code is sound after what stands before it. -/
theorem CodeSound.of_append {before after : List Stmt} {stmt : Stmt}
    (h : CodeSound v written (before ++ stmt :: after)) : stmt.Sound v (written ++ before.flatMap Stmt.scratch) := by
  induction before generalizing written with
  | nil =>
    rw [List.flatMap_nil, List.append_nil]
    exact h.1
  | cons first rest ih =>
    rw [List.flatMap_cons, ← List.append_assoc]
    exact ih h.2

theorem CodeSound.of_mem {stmt : Stmt} (h : CodeSound v written code) (hstmt : stmt ∈ code) :
    ∃ more, stmt.Sound v more := by
  obtain ⟨before, after, rfl⟩ := List.append_of_mem hstmt
  exact ⟨_, h.of_append⟩

theorem CodeSound.of_mem_nodes (h : CodeSound v written code) (hnode : node ∈ nodesOf code) :
    ∃ more, node.Sound v more := by
  obtain ⟨stmt, hstmt, hnode⟩ := List.mem_flatMap.1 hnode
  obtain ⟨more, hsound⟩ := h.of_mem hstmt
  exact ⟨more, hsound.of_mem_nodes hnode⟩

end Il

/-- Lifting a decoded instruction gives sound code, under any store and for any variant. -/
theorem lift_sound {bytes : List UInt8} {addr : Int} {i : Instruction} (h : decode bytes addr = .ok i) (l : Lifter)
    (s : Store) :
    ∃ code, (l.lift s i addr).answer = .ok ⟨i.length, code⟩ ∧ Emits l.variant s addr i i.family code ∧
      CodeSound l.variant [] code := by
  obtain ⟨code, hanswer, hemits⟩ := lift_emits h l s
  exact ⟨code, hanswer, hemits, hemits.sound (regular_of_decode h)⟩

end Lift166
