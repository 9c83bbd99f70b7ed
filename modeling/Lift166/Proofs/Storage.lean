import Lift166.Proofs.AddressResolution
import Lift166.Proofs.Execution
import Lift166.Proofs.SoundCode

/-!
# Where operands are kept

The storage of a machine seen as bytes: the halves of the word registers and the bytes of memory. An operand is a fixed
number or stands in some of these cells, the lowest byte first. Reading an operand gives the number there; a write to
it puts a number there and leaves every other cell alone, or is dropped where the hardware fixes the word.
-/

namespace Lift166

open Il

/-! ## Cells -/

/-- A byte of storage. -/
inductive Cell
  /-- A half of a word register. -/
  | half (index : Fin 16) (upper : Bool)
  | memory (address : Nat)
deriving DecidableEq

/-- The cells of a general purpose register. -/
def Register.cells : Register → List Cell
  | word index => [.half index false, .half index true]
  | byte index => [.half ⟨index.val / 2, half_lt index⟩ (index.val % 2 = 1)]
  | _ => []

/-- The `size` cells of memory from an address on. -/
def memoryCells (size address : Nat) : List Cell :=
  (List.range size).map fun k => .memory (address + k)

namespace Machine

def cell (m : Machine) : Cell → Nat
  | .half index false => (m.words index).val % 256
  | .half index true => (m.words index).val / 256
  | .memory address => (m.memory address).toNat

/-- The number in cells, the lowest first. -/
def valueAt (m : Machine) : List Cell → Nat
  | [] => 0
  | c :: rest => m.cell c + 256 * m.valueAt rest

theorem cell_lt (m : Machine) (c : Cell) : m.cell c < 256 := by
  cases c with
  | half index upper =>
    have hword := (m.words index).isLt
    cases upper
    · exact Nat.mod_lt _ (by decide)
    · exact Nat.div_lt_of_lt_mul hword
  | memory address => exact (m.memory address).toNat_lt

theorem valueAt_memoryCells (m : Machine) (size address : Nat) :
    m.valueAt (memoryCells size address) = m.load size address := by
  have hcells : ∀ offsets : List Nat, m.valueAt (offsets.map fun k => .memory (address + k)) =
      ofLittleEndian (offsets.map fun k => m.memory (address + k)) := by
    intro offsets
    induction offsets with
    | nil => rfl
    | cons k offsets ih => rw [List.map_cons, List.map_cons, valueAt, ofLittleEndian, ih, cell]
  exact hcells _

/-- A general purpose register reads as the number in its cells. -/
theorem read_register (m : Machine) {r : Register} {size : Nat} (h : r.HasSize size) :
    m.read size (.machine r) = m.valueAt r.cells := by
  cases h with
  | word index =>
    have hlt := (m.words index).isLt
    have hsum : m.valueAt (Register.word index).cells = (m.words index).val := by
      simp only [Register.cells, valueAt, cell]
      omega
    rw [hsum]
    exact lowBits_of_lt hlt
  | byte index =>
    have hcell : m.valueAt (Register.byte index).cells = m.value (.machine (.byte index)) := by
      simp only [Register.cells, valueAt, value]
      by_cases hodd : index.val % 2 = 1
      · rw [decide_eq_true hodd, if_neg (by omega)]
        rfl
      · rw [decide_eq_false hodd, if_pos (by omega)]
        rfl
    have hlt : m.valueAt (Register.byte index).cells < 256 := m.cell_lt _
    rw [hcell] at hlt ⊢
    exact lowBits_of_lt hlt

end Machine

theorem eval_word (index : Fin 16) (m : Machine) :
    (Expr.register 2 (.word index)).eval m = some (m.words index).val :=
  congrArg some (lowBits_of_lt (m.words index).isLt)

/-! ## Changes of cells -/

/-- At most the given cells have changed. -/
structure Machine.OnlyChanged (m after : Machine) (cells : List Cell) : Prop where
  cell : ∀ c, c ∉ cells → after.cell c = m.cell c
  others : after.others = m.others
  temps : after.temps = m.temps

namespace Machine

variable {m : Machine}

theorem setWord_onlyChanged (index : Fin 16) (word : Fin 65536) (cells : List Cell)
    (hlow : word.val % 256 = (m.words index).val % 256 ∨ .half index false ∈ cells)
    (hhigh : word.val / 256 = (m.words index).val / 256 ∨ .half index true ∈ cells) :
    m.OnlyChanged (m.setWord index word) cells := by
  refine ⟨?_, rfl, rfl⟩
  intro c hc
  cases c with
  | half other upper =>
    by_cases hother : other = index
    · subst hother
      cases upper
      · have hkept := hlow.resolve_right hc
        rwa [← Function.update_self other word m.words] at hkept
      · have hkept := hhigh.resolve_right hc
        rwa [← Function.update_self other word m.words] at hkept
    · have hword : (m.setWord index word).words other = m.words other := Function.update_of_ne hother _ _
      cases upper <;> simp only [cell, hword]
  | memory address => rfl

theorem replaceHalf_val (word : Fin 65536) (upper : Bool) {byte : Nat} (h : byte < 256) :
    (replaceHalf word upper byte).val =
      if upper then byte * 256 + word.val % 256 else word.val / 256 * 256 + byte := by
  have hword := word.isLt
  unfold replaceHalf wordOf
  cases upper <;> simp only [Bool.false_eq_true, if_false, if_true] <;> omega

/-- Assigning a general purpose register changes the cells of the register. -/
theorem assign_register {r : Register} {size x : Nat} (h : r.HasSize size) (hx : x < 1 <<< (8 * size)) :
    m.OnlyChanged (m.assign size (.machine r) x) r.cells ∧ (m.assign size (.machine r) x).valueAt r.cells = x := by
  have hlow : lowBits (8 * size) x = x := lowBits_of_lt hx
  cases h with
  | word index =>
    have hassign : m.assign 2 (.machine (.word index)) x = m.setWord index (wordOf x) := by rw [assign, hlow]
    rw [hassign]
    refine ⟨setWord_onlyChanged index _ _ (.inr (by simp [Register.cells])) (.inr (by simp [Register.cells])), ?_⟩
    have hword : (m.setWord index (wordOf x)).words index = wordOf x := Function.update_self _ _ _
    have hval : (wordOf x).val = x := Nat.mod_eq_of_lt hx
    simp only [Register.cells, valueAt, cell, hword, hval]
    omega
  | byte index =>
    have hbyte : x < 256 := hx
    -- named, so that the cases of the half do not meet the proof inside the index
    obtain ⟨owner, howner⟩ : ∃ owner : Fin 16, owner = ⟨index.val / 2, Register.half_lt index⟩ := ⟨_, rfl⟩
    obtain ⟨upper, hupper⟩ : ∃ upper : Bool, upper = decide (index.val % 2 = 1) := ⟨_, rfl⟩
    have hassign : m.assign 1 (.machine (.byte index)) x =
        m.setWord owner (replaceHalf (m.words owner) upper x) := by rw [assign, hlow, howner, hupper]
    have hcells : (Register.byte index).cells = [.half owner upper] := by rw [Register.cells, howner, hupper]
    have hval := replaceHalf_val (m.words owner) upper hbyte
    have hword : (m.setWord owner (replaceHalf (m.words owner) upper x)).words owner =
        replaceHalf (m.words owner) upper x := Function.update_self _ _ _
    rw [hassign, hcells]
    cases upper
    · rw [if_neg Bool.false_ne_true] at hval
      refine ⟨setWord_onlyChanged owner _ _ (.inr List.mem_cons_self) (.inl (by omega)), ?_⟩
      simp only [valueAt, cell, hword]
      omega
    · rw [if_pos rfl] at hval
      refine ⟨setWord_onlyChanged owner _ _ (.inl (by omega)) (.inr List.mem_cons_self), ?_⟩
      simp only [valueAt, cell, hword]
      omega

theorem littleEndian_eq_map (x size : Nat) :
    littleEndian x size = (List.range size).map fun k => UInt8.ofNat (x >>> (8 * k)) := by
  induction size generalizing x with
  | zero => rfl
  | succ size ih =>
    have hbyte : UInt8.ofNat (x % 256) = UInt8.ofNat (x >>> (8 * 0)) := UInt8.ofNat_mod_size
    have hrest : ∀ k, (x / 256) >>> (8 * k) = x >>> (8 * (k + 1)) := by
      intro k
      rw [Nat.mul_succ, Nat.add_comm, Nat.shiftRight_add, Nat.shiftRight_eq_div_pow x 8]
    rw [littleEndian, ih, List.range_succ_eq_map, List.map_cons, List.map_map, hbyte]
    simp only [hrest, Function.comp_def]

/-- A store changes the cells from its address on. -/
theorem store_memory (address : Nat) {size x : Nat} (hx : x < 1 <<< (8 * size)) :
    m.OnlyChanged (m.store size address x) (memoryCells size address) ∧
      (m.store size address x).valueAt (memoryCells size address) = x := by
  constructor
  · refine ⟨?_, rfl, rfl⟩
    intro c hc
    cases c with
    | half index upper => cases upper <;> rfl
    | memory a =>
      have hout : ¬(address ≤ a ∧ a < address + size) := by
        rintro ⟨hle, hlt⟩
        apply hc
        rw [memoryCells, List.mem_map]
        exact ⟨a - address, List.mem_range.2 (by omega), by rw [Nat.add_sub_cancel' hle]⟩
      simp only [cell, store, if_neg hout]
  · rw [valueAt_memoryCells, load]
    have hbytes : ∀ k ∈ List.range size,
        (m.store size address x).memory (address + k) = UInt8.ofNat (x >>> (8 * k)) := by
      intro k hk
      have hin : address ≤ address + k ∧ address + k < address + size := by
        rw [List.mem_range] at hk
        omega
      simp only [store, if_pos hin, Nat.add_sub_cancel_left]
    rw [List.map_congr_left hbytes, ← littleEndian_eq_map, ofLittleEndian_littleEndian hx]

end Machine

/-! ## Spots -/

/-- Where an operand is kept: nowhere, since it is a fixed number, or in cells. -/
inductive Spot
  | fixed (value : Nat)
  | kept (cells : List Cell)

def Spot.value (m : Machine) : Spot → Nat
  | fixed value => value
  | kept cells => m.valueAt cells

/-- The number has been written to the spot. Writing a fixed number changes nothing. -/
inductive Machine.Wrote (m after : Machine) : Spot → Nat → Prop
  | dropped (value x : Nat) (same : after = m) : Wrote m after (.fixed value) x
  | stored {cells : List Cell} {x : Nat} (only : m.OnlyChanged after cells) (held : after.valueAt cells = x) :
      Wrote m after (.kept cells) x

/-- The spot of the memory-mapped word at an address, for an operand of `width` bytes. The word at `0xFF1C` is always
zero, and the one at `0xFF1E` is all ones. -/
def wordSpot (width : Nat) (address : Int) : Spot :=
  if address = 0xFF1C then .fixed 0
  else if address = 0xFF1E then .fixed (0xFFFF % 1 <<< (8 * width))
  else .kept (memoryCells width address.toNat)

theorem nibble_lt (n : Int) : (n % 16).toNat < 16 := by
  omega

/-- The spot of the general purpose register that the four low bits of a number select. -/
def registerSpot (width : Nat) (n : Int) : Spot :=
  if width = 1 then .kept (Register.byte ⟨(n % 16).toNat, nibble_lt n⟩).cells
  else .kept (Register.word ⟨(n % 16).toNat, nibble_lt n⟩).cells

/-- The spot of a short address. The codes above `0xEF` are general purpose registers. Those up to it are the words from
`0xFE00` on, where the special function registers are, or those from `0xF000` on, where the extended ones are. -/
def shortSpot (extended : Bool) (width : Nat) (code : Int) : Spot :=
  if 0xEF < code then registerSpot width code
  else wordSpot width ((if extended then 0xF000 else 0xFE00) + 2 * code)

/-- The spot of a bit-addressable word. The offsets up to `0x7F` are words of memory from `0xFD00` on. Those up to
`0xEF` are the upper special function registers, from `0xFF00` on, or the upper extended ones, from `0xF100` on, and
those above are general purpose registers. -/
def bitWordSpot (extended : Bool) (offset : Int) : Spot :=
  if offset ≤ 0x7F then wordSpot 2 (0xFD00 + 2 * offset)
  else if offset ≤ 0xEF then wordSpot 2 ((if extended then 0xF100 else 0xFF00) + 2 * (offset % 128))
  else registerSpot 2 offset

/-- The address of a direct operand: in the page in force at the instruction; or else in the segment; or else in the
page that its two upper bits select among the custom pointers in force, or those after reset. -/
def Store.directAddress (s : Store) (addr : Int) (raw : Nat) : Nat :=
  let entry := s.get addr
  let pointers := if entry.kinds.customDpp then entry.dpp else s.defaultDpp
  if entry.kinds.page then entry.page.val * 0x4000 + raw % 0x4000
  else if entry.kinds.segment then entry.segment.val * 0x10000 + raw
  else (pointers.toList.map Fin.val).getD (raw / 0x4000) 0 * 0x4000 + raw % 0x4000

/-- The sixteen bits that a base and a displacement stand for. -/
def Machine.pointer (m : Machine) (base : Register) (disp : Int) : Fin 65536 :=
  wordOf (m.valueAt base.cells + disp.toNat)

/-- The spot of an operand of the instruction at an address, if it has a value. A pointer is followed on the machine as
it is. -/
def Operand.spot? (s : Store) (addr : Int) (m : Machine) : Operand → Option Spot
  | reg r _ => some (.kept r.cells)
  | short code width => some (shortSpot (s.get addr).kinds.register width code.val)
  | imm value _ => some (.fixed value.val)
  | mem raw width => some (.kept (memoryCells width (s.directAddress addr raw.val)))
  | indirect base mode width disp =>
    let offset := if mode = .disp then disp else 0
    some (.kept (memoryCells width ((s.regimeOn m addr).physical (m.pointer base offset))))
  | _ => none

/-! ## What lifting resolves -/

/-- The spot of a place, for an operand of `width` bytes. -/
def Place.spot (width : Nat) : Place → Spot
  | gpr r => .kept r.cells
  | sfr address => wordSpot width address

theorem Place.spot_register (width : Nat) (n : Int) : (gpr (.ofField n width)).spot width = registerSpot width n := by
  have hindex : Fin.ofNat 16 (lowBits 4 n) = ⟨(n % 16).toNat, nibble_lt n⟩ := by
    refine Fin.ext ?_
    have hlow : lowBits 4 n = (n % 16).toNat := rfl
    rw [Fin.val_ofNat, hlow, Nat.mod_eq_of_lt (nibble_lt n)]
  unfold registerSpot Register.ofField Register.byteAt Register.wordAt
  rw [hindex]
  by_cases hwidth : width = 1
  · rw [if_pos hwidth, if_pos hwidth]
    rfl
  · rw [if_neg hwidth, if_neg hwidth]
    rfl

/-- A short address is resolved to its spot. -/
theorem Place.spot_ofShort (s : Store) (addr code : Int) (width : Nat) :
    (ofShort s addr code width).spot width = shortSpot (s.get addr).kinds.register width code := by
  unfold ofShort shortSpot lastSpecialCode
  by_cases hregister : 0xEF < code
  · rw [if_pos hregister, if_pos hregister, spot_register]
  · rw [if_neg hregister, if_neg hregister]
    rfl

/-- A bit offset is resolved to its spot. -/
theorem Place.spot_ofBitOffset (s : Store) (addr offset : Int) :
    (ofBitOffset s addr offset).spot 2 = bitWordSpot (s.get addr).kinds.register offset := by
  unfold ofBitOffset bitWordSpot lastBitMemoryOffset lastSpecialCode
  rw [lowBits_seven]
  by_cases hmemory : offset ≤ 0x7F
  · rw [if_pos hmemory, if_pos hmemory]
    rfl
  rw [if_neg hmemory, if_neg hmemory]
  by_cases hspecial : offset ≤ 0xEF
  · rw [if_pos hspecial, if_pos hspecial]
    rfl
  · rw [if_neg hspecial, if_neg hspecial, spot_register]

/-- A direct operand is resolved to its address. -/
theorem Store.physical_regime (s : Store) (addr : Int) (raw : Fin 65536) :
    (s.regime addr).physical raw = s.directAddress addr raw.val := by
  have hselect : ∀ v : DppVector,
      (v.select (raw.val / 0x4000)).val = (v.toList.map Fin.val).getD (raw.val / 0x4000) 0 := by
    intro v
    have hslot : raw.val / 0x4000 < 4 := by omega
    generalize raw.val / 0x4000 = slot at hslot ⊢
    obtain rfl | rfl | rfl | rfl : slot = 0 ∨ slot = 1 ∨ slot = 2 ∨ slot = 3 := by omega
    all_goals rfl
  simp only [regime, directAddress]
  generalize s.get addr = entry
  cases entry.kinds.page with
  | true => rfl
  | false =>
    cases entry.kinds.segment with
    | true => rfl
    | false =>
      cases entry.kinds.customDpp with
      | true => exact congrArg (· * 0x4000 + raw.val % 0x4000) (hselect entry.dpp)
      | false => exact congrArg (· * 0x4000 + raw.val % 0x4000) (hselect s.defaultDpp)

theorem IndirectMode.displacement_eq (mode : IndirectMode) (disp : Int) :
    mode.displacement disp = if mode = .disp then disp else 0 := by
  cases mode <;> rfl

section Access

variable {m : Machine} {s : Store} {addr : Int} {rule : FlagRule} {width x : Nat} {value : Expr}
  {flags : Option FlagPolicy}

theorem Machine.cell_updateFlags (m : Machine) (updated : List Flag) (choice : Flag → Bool) (c : Cell) :
    (m.updateFlags updated choice).cell c = m.cell c := by
  cases c with
  | half index upper => cases upper <;> rfl
  | memory address => rfl

theorem Machine.valueAt_congr {after : Machine} {cells : List Cell} (h : ∀ c ∈ cells, after.cell c = m.cell c) :
    after.valueAt cells = m.valueAt cells := by
  induction cells with
  | nil => rfl
  | cons c rest ih =>
    rw [valueAt, valueAt, h c List.mem_cons_self, ih fun c hc => h c (List.mem_cons_of_mem _ hc)]

theorem Machine.OnlyChanged.valueAt_eq {after : Machine} {cells kept : List Cell} (h : m.OnlyChanged after cells)
    (hkept : ∀ c ∈ kept, c ∉ cells) : after.valueAt kept = m.valueAt kept :=
  Machine.valueAt_congr fun c hc => h.cell c (hkept c hc)

/-- What the effect of a statement writes is still there when the flags have been updated. -/
theorem Il.Stmt.exec_wrote {stmt : Stmt} {after : Machine} {cells : List Cell} (heffect : stmt.effect m = some after)
    (h : m.OnlyChanged after cells) (held : after.valueAt cells = x) :
    ∃ final, stmt.exec rule m = some final ∧ m.Wrote final (.kept cells) x := by
  have hcell := after.cell_updateFlags stmt.updated (rule stmt m)
  refine ⟨after.updateFlags stmt.updated (rule stmt m), by rw [exec, heffect, Option.map_some], ?_⟩
  refine .stored ⟨fun c hc => (hcell c).trans (h.cell c hc), h.others, h.temps⟩ ?_
  rw [← held]
  exact Machine.valueAt_congr fun c _ => hcell c

theorem exec_setReg {r : Register} (hr : r.HasSize width) (hvalue : value.eval m = some x)
    (hx : x < 1 <<< (8 * width)) : ∃ after, (Stmt.setReg width flags (.machine r) value).exec rule m = some after ∧
      m.Wrote after (.kept r.cells) x := by
  obtain ⟨honly, hheld⟩ := m.assign_register hr hx
  refine Stmt.exec_wrote ?_ honly hheld
  rw [Stmt.effect, hvalue, Option.map_some]

theorem exec_store {address : Expr} {a : Nat} (haddress : address.eval m = some a) (hvalue : value.eval m = some x)
    (hx : x < 1 <<< (8 * width)) : ∃ after, (Stmt.store width flags address value).exec rule m = some after ∧
      m.Wrote after (.kept (memoryCells width a)) x := by
  obtain ⟨honly, hheld⟩ := m.store_memory a hx
  refine Stmt.exec_wrote ?_ honly hheld
  rw [Stmt.effect, haddress, Option.bind_some, hvalue, Option.map_some]

theorem eval_address {address : Int} (h : LiteralFits 3 address) :
    (Expr.pointer 3 address).eval m = some address.toNat := by
  obtain ⟨n, rfl⟩ := Int.eq_ofNat_of_zero_le h.1
  exact Expr.eval_pointer (Int.ofNat_lt.1 h.2)

theorem Place.eval_read {place : Place} (h : place.Addressable width) :
    (place.read width).eval m = some ((place.spot width).value m) := by
  cases place with
  | gpr r =>
    rw [spot, Spot.value, ← m.read_register h]
    rfl
  | sfr address =>
    by_cases hzeros : address = 0xFF1C
    · have hread : (sfr address).read width = .const width (0 % 1 <<< (8 * width) : Nat) := by rw [hzeros]; rfl
      rw [hread, spot, wordSpot, if_pos hzeros, Spot.value, Nat.zero_mod, Expr.eval_const (one_shiftLeft_pos _)]
    by_cases hones : address = 0xFF1E
    · have hread : (sfr address).read width = .const width (0xFFFF % 1 <<< (8 * width) : Nat) := by rw [hones]; rfl
      rw [hread, spot, wordSpot, if_neg hzeros, if_pos hones, Spot.value,
        Expr.eval_const (Nat.mod_lt _ (one_shiftLeft_pos _))]
    · have hread : (sfr address).read width = .load width (.pointer 3 address) := by
        simp only [read, fixedWord?_eq_none hzeros hones]
      rw [hread, spot, wordSpot, if_neg hzeros, if_neg hones, Spot.value, m.valueAt_memoryCells, Expr.eval,
        eval_address h, Option.map_some]

theorem Place.exec_write {place : Place} (h : place.Addressable width) (hvalue : value.eval m = some x)
    (hx : x < 1 <<< (8 * width)) : ∃ after, (place.write width value flags).exec rule m = some after ∧
      m.Wrote after (place.spot width) x := by
  cases place with
  | gpr r => exact exec_setReg h hvalue hx
  | sfr address =>
    by_cases hzeros : address = 0xFF1C
    · have hwrite : (sfr address).write width value flags = .nop := by rw [hzeros]; rfl
      rw [hwrite, spot, wordSpot, if_pos hzeros]
      exact ⟨m, rfl, .dropped _ _ rfl⟩
    by_cases hones : address = 0xFF1E
    · have hwrite : (sfr address).write width value flags = .nop := by rw [hones]; rfl
      rw [hwrite, spot, wordSpot, if_neg hzeros, if_pos hones]
      exact ⟨m, rfl, .dropped _ _ rfl⟩
    · have hwrite : (sfr address).write width value flags = .store width flags (.pointer 3 address) value := by
        simp only [write, fixedWord?_eq_none hzeros hones]
      rw [hwrite, spot, wordSpot, if_neg hzeros, if_neg hones]
      exact exec_store (eval_address h) hvalue hx

theorem eval_pointer_of_encodable {base : Register} {disp : Int} (hbase : base.HasSize 2) (hdisp : LiteralFits 2 disp) :
    (pointerBase base disp).eval m = some (m.pointer base disp).val := by
  obtain ⟨n, rfl⟩ := Int.eq_ofNat_of_zero_le hdisp.1
  have heval := eval_pointerBase m base ⟨n, Int.ofNat_lt.1 hdisp.2⟩
  rw [m.read_register hbase] at heval
  exact heval

theorem eval_indirect {base : Register} {mode : IndirectMode} {disp : Int} (hbase : base.HasSize 2)
    (hdisp : LiteralFits 2 disp) : (indirectAddress s addr base (mode.displacement disp)).eval m =
      some ((s.regimeOn m addr).physical (m.pointer base (mode.displacement disp))) :=
  eval_indirectAddress_on s addr (eval_pointer_of_encodable hbase (mode.displacement_literalFits hdisp))

/-- An operand reads as the number at its spot. -/
theorem Operand.eval_read (m : Machine) {op : Operand} {e : Expr} (hop : op.Encodable) (h : op.read s addr = .ok e) :
    ∃ spot, op.spot? s addr m = some spot ∧ e.eval m = some (spot.value m) := by
  cases op with
  | reg r width =>
    cases h
    exact ⟨_, rfl, congrArg some (m.read_register hop)⟩
  | short code width =>
    cases h
    refine ⟨_, rfl, ?_⟩
    rw [← Place.spot_ofShort]
    exact Place.eval_read (Place.ofShort_addressable s addr code hop)
  | imm value width =>
    cases h
    exact ⟨_, rfl, Expr.eval_const (Int.ofNat_lt.1 hop.2)⟩
  | mem raw width =>
    cases h
    refine ⟨_, rfl, ?_⟩
    rw [Expr.eval, eval_address (Regime.physical_literalFits _ raw), s.physical_regime, Spot.value,
      m.valueAt_memoryCells]
    rfl
  | indirect base mode width disp =>
    cases h
    refine ⟨_, rfl, ?_⟩
    rw [Expr.eval, eval_indirect hop.1 hop.2.2, mode.displacement_eq, Spot.value, m.valueAt_memoryCells]
    rfl
  | _ => cases h

/-- Writing an operand writes its spot. -/
theorem Operand.exec_write {op : Operand} {stmt : Stmt} (hop : op.Encodable) (hwidth : op.width? = some width)
    (hvalue : value.eval m = some x) (hx : x < 1 <<< (8 * width)) (h : op.write s addr value flags = .ok stmt)
    (rule : FlagRule) :
    ∃ spot, op.spot? s addr m = some spot ∧ ∃ after, stmt.exec rule m = some after ∧ m.Wrote after spot x := by
  cases op with
  | reg r width =>
    cases h
    cases hwidth
    exact ⟨_, rfl, exec_setReg hop hvalue hx⟩
  | short code width =>
    cases h
    cases hwidth
    refine ⟨_, rfl, ?_⟩
    rw [← Place.spot_ofShort]
    exact Place.exec_write (Place.ofShort_addressable s addr code hop) hvalue hx
  | mem raw width =>
    cases h
    cases hwidth
    refine ⟨_, rfl, ?_⟩
    rw [← s.physical_regime]
    exact exec_store (eval_address (Regime.physical_literalFits _ raw)) hvalue hx
  | indirect base mode width disp =>
    cases h
    cases hwidth
    refine ⟨_, rfl, ?_⟩
    rw [← mode.displacement_eq]
    exact exec_store (eval_indirect hop.1 hop.2.2) hvalue hx
  | _ => cases h

end Access

end Lift166
