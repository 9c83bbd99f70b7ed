import Lift166.Encoding.Decode

/-!
# What decoding yields

Decoding runs through the fields of a layout and may stop at any of them. Here the other direction is written
down once: `Layout.Yields` lists the instructions that a row of the opcode table can produce at an address, with
their operands and nothing about the bytes they came from, and `decode_yields` says that every decoded instruction
is on that list. Facts about decoded instructions are proved by going through the list, not by running the decoder
again.
-/

namespace Lift166

/-! ## Answers of a computation that can fail -/

/-- A computation in two steps answers just when both steps do. -/
theorem bind_ok_iff {ε α β : Type} {first : Except ε α} {next : α → Except ε β} {answer : β} :
    (first >>= next) = .ok answer ↔ ∃ value, first = .ok value ∧ next value = .ok answer := by
  cases first with
  | error e =>
    constructor
    · intro h
      cases h
    · rintro ⟨_, ⟨⟩, _⟩
  | ok value =>
    constructor
    · intro h
      exact ⟨value, rfl, h⟩
    · rintro ⟨_, ⟨⟩, h⟩
      exact h

/-- A mapped answer comes from an answer. -/
theorem map_ok_iff {ε α β : Type} {first : Except ε α} {f : α → β} {answer : β} :
    first.map f = .ok answer ↔ ∃ value, first = .ok value ∧ f value = answer := by
  cases first with
  | error e =>
    constructor
    · intro h
      cases h
    · rintro ⟨_, ⟨⟩, _⟩
  | ok value =>
    constructor
    · intro h
      exact ⟨value, rfl, Except.ok.inj h⟩
    · rintro ⟨_, ⟨⟩, rfl⟩
      rfl

/-! ## The instructions of a row -/

/-- The instruction of a row with the given operands. -/
def OpcodeEntry.filled (entry : OpcodeEntry) (mnemonic : String) (cond : Option Condition)
    (binds : List (Slot × Operand)) (display : List Slot) : Instruction :=
  { opcode := entry.opcode, mnemonic, family := entry.family, length := entry.length, binds, display,
    flags := entry.flags, cond, operation := entry.operation }

/-- The instruction of a row with the given operands, under the mnemonic of the row and without a condition. -/
def OpcodeEntry.simple (entry : OpcodeEntry) (binds : List (Slot × Operand)) (display : List Slot) : Instruction :=
  entry.filled entry.mnemonic none binds display

/-- The instruction of a row that extends the ones after it. -/
def OpcodeEntry.extending (entry : OpcodeEntry) (ext : Extension) (values : List (Slot × Operand)) : Instruction :=
  entry.filled ext.kind.name none
    ((.ext, .extension ext) :: (values ++ [(.count, .ofNat ext.count.toNat 1)]))
    (values.map Prod.fst ++ [.count])

theorem OpcodeEntry.special_eq_ok {entry : OpcodeEntry} {w : Window} {mnemonic : String}
    {cond : Option Condition} {binds : List (Slot × Operand)} {display : List Slot} {i : Instruction} :
    entry.special w mnemonic cond binds display = .ok i ↔
      entry.length ≤ w.bytes.length ∧ entry.filled mnemonic cond binds display = i := by
  simp only [special, bind_ok_iff, Window.require, filled]
  constructor
  · rintro ⟨_, hlen, hi⟩
    split at hlen
    · next h => exact ⟨h, Except.ok.inj hi⟩
    · cases hlen
  · rintro ⟨h, rfl⟩
    exact ⟨(), by rw [if_pos h], rfl⟩

/-- The destination and the source that a layout with two operands can produce. -/
inductive Layout.Pair (entry : OpcodeEntry) : Layout → Operand → Operand → Prop
  | regReg (dst src : Fin 16) : Pair entry .regReg (.ofNibble dst entry.width) (.ofNibble src entry.width)
  | regPointer (dst : Fin 16) (index : Fin 4) :
      Pair entry .regPointer (.ofNibble dst entry.width) (.ofPointer (index.castLE (by decide)) .plain entry.width)
  | regStepped (dst : Fin 16) (index : Fin 4) :
      Pair entry .regPointer (.ofNibble dst entry.width) (.ofPointer (index.castLE (by decide)) .postInc entry.width)
  | regData3 (dst : Fin 16) (data : Fin 8) :
      Pair entry .regPointer (.ofNibble dst entry.width) (.ofSmall data (by decide) entry.width)
  | shortByte (code data : Fin 256) (byte : entry.width = 1) :
      Pair entry .shortImm (.short code entry.width) (.ofSmall data (by decide) entry.width)
  | shortImm (code : Fin 256) (data : Fin 65536) (word : entry.width ≠ 1) :
      Pair entry .shortImm (.short code entry.width) (.imm data entry.width)
  | shortWord (code : Fin 256) (data : Fin 65536) :
      Pair entry .shortWord (.short code entry.width) (.imm data entry.width)
  | shortMem (code : Fin 256) (raw : Fin 65536) :
      Pair entry .shortMem (.short code entry.width) (.mem raw entry.width)
  | memShort (raw : Fin 65536) (code : Fin 256) :
      Pair entry .memShort (.mem raw entry.width) (.short code entry.width)
  | regImm4 (dst data : Fin 16) :
      Pair entry .regImm4 (.ofNibble dst entry.width) (.ofSmall data (by decide) entry.width)
  | regMem (dst : Fin 16) (raw : Fin 65536) :
      Pair entry .regMem (.ofNibble dst entry.width) (.mem raw entry.width)
  | regWord (dst : Fin 16) (data : Fin 65536) :
      Pair entry .regWord (.ofNibble dst entry.width) (.imm data entry.width)
  | shiftCount (dst count : Fin 16) :
      Pair entry .shiftCount (.ofNibble dst entry.width) (.ofSmall count (by decide) 1)
  | bitPair (dstOffset srcOffset : Fin 256) (dstPos srcPos : Fin 16) :
      Pair entry .bitPair (.bit dstOffset.val dstPos) (.bit srcOffset.val srcPos)
  | load (mode : IndirectMode) (dst src : Fin 16) :
      Pair entry (.load mode) (.ofNibble dst entry.width) (.ofPointer src mode entry.width)
  | save (mode : IndirectMode) (dst src : Fin 16) :
      Pair entry (.save mode) (.ofPointer dst mode entry.width) (.ofNibble src entry.width)
  | transfer (dstMode srcMode : IndirectMode) (dst src : Fin 16) :
      Pair entry (.transfer dstMode srcMode) (.ofPointer dst dstMode entry.width)
        (.ofPointer src srcMode entry.width)
  | loadDisp (dst src : Fin 16) (disp : Fin 65536) :
      Pair entry .loadDisp (.ofNibble dst entry.width) (.ofDisplaced src disp entry.width)
  | saveDisp (dst src : Fin 16) (disp : Fin 65536) :
      Pair entry .saveDisp (.ofDisplaced dst disp entry.width) (.ofNibble src entry.width)
  | pointerMem (dst : Fin 16) (raw : Fin 65536) :
      Pair entry .pointerMem (.ofPointer dst .plain entry.width) (.mem raw entry.width)
  | memPointer (raw : Fin 65536) (src : Fin 16) :
      Pair entry .memPointer (.mem raw entry.width) (.ofPointer src .plain entry.width)
  | wordByte (dst src : Fin 16) : Pair entry .wordByte (.ofNibble dst 2) (.ofNibble src 1)
  | shortMemByte (code : Fin 256) (raw : Fin 65536) : Pair entry .shortMemByte (.short code 2) (.mem raw 1)
  | memShortByte (raw : Fin 65536) (code : Fin 256) : Pair entry .memShortByte (.mem raw 2) (.short code 1)

/-- The extensions that an encoding can hold: they cover one to four instructions, and a page or segment given as
an immediate fits its field. -/
inductive Extension.Encoded : Layout → Extension → Prop
  | atomic (count : Nat) (pos : 1 ≤ count) (le : count ≤ 4) :
      Encoded .extensionShort ⟨.atomic, count, none, none⟩
  | bank (count : Nat) (pos : 1 ≤ count) (le : count ≤ 4) : Encoded .extensionShort ⟨.extr, count, none, none⟩
  | segment (kind : ExtensionKind) (count : Nat) (value : Fin 256) (sort : kind = .exts ∨ kind = .extsr)
      (pos : 1 ≤ count) (le : count ≤ 4) : Encoded .extensionImmediate ⟨kind, count, some value.val, none⟩
  | page (kind : ExtensionKind) (count : Nat) (value : Fin 1024) (sort : kind = .extp ∨ kind = .extpr)
      (pos : 1 ≤ count) (le : count ≤ 4) : Encoded .extensionImmediate ⟨kind, count, some value.val, none⟩
  | register (selector : Fin 4) (count : Nat) (field : Fin 16) (pos : 1 ≤ count) (le : count ≤ 4) :
      Encoded .extensionRegister ⟨extensionOfSelector selector, count, none, some (.wordAt field.val)⟩

/-- The operands that an extension instruction shows beside its count. -/
def Extension.shown (ext : Extension) : List (Slot × Operand) :=
  match ext.value, ext.register with
  | some value, _ => [(.value, .ofNat value.toNat 2)]
  | none, some r => [(.reg, .reg r 2)]
  | none, none => []

/-- The instructions that a layout can produce at an address. -/
inductive Layout.Yields (entry : OpcodeEntry) (pc : Int) : Layout → Instruction → Prop
  | pair {layout : Layout} {dst src : Operand} (operands : layout.Pair entry dst src) :
      Yields entry pc layout (entry.simple [(.dst, dst), (.src, src)] [.dst, .src])
  | dstReg (dst : Fin 16) : Yields entry pc .dstReg (entry.simple [(.dst, .ofNibble dst entry.width)] [.dst])
  | srcReg (src : Fin 16) : Yields entry pc .srcReg (entry.simple [(.src, .ofNibble src entry.width)] [.src])
  | bit (offset : Fin 256) (pos : Fin 16) :
      Yields entry pc .bit (entry.simple [(.bit, .bit offset.val pos)] [.bit])
  | bitField (dataFirst : Bool) (offset mask data : Fin 256) :
      Yields entry pc (.bitField dataFirst)
        (entry.simple
          [(.bitoff, .bitWord offset.val), (.mask, .ofSmall mask (by decide) 1),
            (.data, .ofSmall data (by decide) 1)]
          [.bitoff, .mask, .data])
  | bitJump (offset : Fin 256) (pos : Fin 16) (displacement : Int) :
      Yields entry pc .bitJump
        (entry.simple [(.bit, .bit offset.val pos), (.target, .target (relativeTarget pc displacement 4))]
          [.bit, .target])
  | conditionalRelative (cond : Condition) (displacement : Int) :
      Yields entry pc .conditionalRelative
        (entry.filled entry.mnemonic (some cond) [(.target, .target (relativeTarget pc displacement 2))]
          [.cond, .target])
  | absolute (cond : Condition) (offset : Fin 65536) :
      Yields entry pc .absolute
        (entry.filled entry.mnemonic (some cond) [(.target, .target ((segmentBase pc + offset.val : Nat) : Int))]
          [.cond, .target])
  | segmented (segment : Fin 256) (offset : Fin 65536) :
      Yields entry pc .segmented
        (entry.simple
          [(.seg, .ofSmall segment (by decide) 1),
            (.target, .target ((segment.val * 0x10000 + offset.val : Nat) : Int))]
          [.seg, .target])
  | pointerBranch (base : Fin 16) :
      Yields entry pc .pointerBranch
        (entry.filled entry.mnemonic (some .uc) [(.base, .ofPointer base .plain 2)] [.cond, .base])
  | relative (displacement : Int) :
      Yields entry pc .relative
        (entry.simple [(.target, .target (relativeTarget pc displacement 2))] [.target])
  | plain : Yields entry pc .plain (entry.simple [] [])
  | short (code : Fin 256) : Yields entry pc .short (entry.simple [(.reg, .short code entry.width)] [.reg])
  | trap (number : Fin 128) :
      Yields entry pc .trap
        (entry.simple
          [(.trap, .ofSmall number (by decide) 1),
            (.target, .target ((segmentBase pc + number.val * 4 : Nat) : Int))]
          [.trap])
  | protectedOpcode : Yields entry pc .protectedOpcode (entry.simple [] [])
  | extension {layout : Layout} {ext : Extension} (encoded : ext.Encoded layout) :
      Yields entry pc layout (entry.extending ext ext.shown)

/-! ## Decoding stays on the list -/

section Fields

variable {entry : OpcodeEntry} {w : Window} {i : Instruction}

theorem OpcodeEntry.instruction_eq_ok {binds : List (Slot × Operand)} {display : List Slot}
    (h : entry.instruction w binds display = .ok i) : entry.simple binds display = i :=
  (special_eq_ok.1 h).2

theorem OpcodeEntry.binary_yields {layout : Layout} {dst src : Operand} (operands : layout.Pair entry dst src)
    (h : entry.binary w dst src = .ok i) : layout.Yields entry w.pc i := by
  rw [← instruction_eq_ok h]
  exact .pair operands

theorem OpcodeEntry.extension_yields {layout : Layout} {ext : Extension} {values : List (Slot × Operand)}
    (encoded : ext.Encoded layout) (hvalues : ext.shown = values) (h : entry.extension w ext values = .ok i) :
    layout.Yields entry w.pc i := by
  have hi : entry.extending ext values = i := (special_eq_ok.1 h).2
  rw [← hi, ← hvalues]
  exact .extension encoded

theorem Window.extensionCount_bounds {count : Nat} (h : w.extensionCount = .ok count) :
    1 ≤ count ∧ count ≤ 4 := by
  obtain ⟨b, -, rfl⟩ := map_ok_iff.1 h
  omega

/-- An extension with a value overrides the segment or the page. -/
theorem extensionOfSelector_cases (selector : Fin 4) :
    ((extensionOfSelector selector).hasSegment = true ∧
      (extensionOfSelector selector = .exts ∨ extensionOfSelector selector = .extsr)) ∨
    ((extensionOfSelector selector).hasSegment = false ∧
      (extensionOfSelector selector = .extp ∨ extensionOfSelector selector = .extpr)) := by
  revert selector
  decide

/-- Whatever the bytes are, a layout that answers gives one of its instructions. -/
theorem Layout.yields_of_decode {layout : Layout} (h : layout.decode entry w = .ok i) :
    layout.Yields entry w.pc i := by
  cases layout
  all_goals simp only [Layout.decode, bind_ok_iff] at h
  case regReg =>
    obtain ⟨dst, -, src, -, h⟩ := h
    exact OpcodeEntry.binary_yields (.regReg dst src) h
  case regPointer =>
    obtain ⟨dst, -, selector, -, index, -, data, -, h⟩ := h
    split at h
    · exact OpcodeEntry.binary_yields (.regPointer dst index) h
    · split at h
      · exact OpcodeEntry.binary_yields (.regStepped dst index) h
      · exact OpcodeEntry.binary_yields (.regData3 dst data) h
  case shortImm =>
    split at h
    · next hbyte =>
      simp only [bind_ok_iff, map_ok_iff] at h
      obtain ⟨_, ⟨data, -, rfl⟩, code, -, h⟩ := h
      exact OpcodeEntry.binary_yields (.shortByte code data hbyte) h
    · next hword =>
      simp only [bind_ok_iff, map_ok_iff] at h
      obtain ⟨_, ⟨data, -, rfl⟩, code, -, h⟩ := h
      exact OpcodeEntry.binary_yields (.shortImm code data hword) h
  case shortWord =>
    obtain ⟨code, -, data, -, h⟩ := h
    exact OpcodeEntry.binary_yields (.shortWord code data) h
  case shortMem =>
    obtain ⟨code, -, raw, -, h⟩ := h
    exact OpcodeEntry.binary_yields (.shortMem code raw) h
  case memShort =>
    obtain ⟨raw, -, code, -, h⟩ := h
    exact OpcodeEntry.binary_yields (.memShort raw code) h
  case regImm4 =>
    obtain ⟨dst, -, data, -, h⟩ := h
    exact OpcodeEntry.binary_yields (.regImm4 dst data) h
  case regMem =>
    obtain ⟨dst, -, raw, -, h⟩ := h
    exact OpcodeEntry.binary_yields (.regMem dst raw) h
  case regWord =>
    obtain ⟨dst, -, data, -, h⟩ := h
    exact OpcodeEntry.binary_yields (.regWord dst data) h
  case dstReg =>
    obtain ⟨dst, -, h⟩ := h
    exact OpcodeEntry.instruction_eq_ok h ▸ .dstReg dst
  case srcReg =>
    obtain ⟨src, -, h⟩ := h
    exact OpcodeEntry.instruction_eq_ok h ▸ .srcReg src
  case shiftCount =>
    obtain ⟨dst, -, count, -, h⟩ := h
    exact OpcodeEntry.binary_yields (.shiftCount dst count) h
  case bit =>
    obtain ⟨offset, -, pos, -, h⟩ := h
    exact OpcodeEntry.instruction_eq_ok h ▸ .bit offset pos
  case bitPair =>
    obtain ⟨dstOffset, -, dstPos, -, srcOffset, -, srcPos, -, h⟩ := h
    exact OpcodeEntry.binary_yields (.bitPair dstOffset srcOffset dstPos srcPos) h
  case bitField dataFirst =>
    obtain ⟨first, -, second, -, offset, -, h⟩ := h
    exact OpcodeEntry.instruction_eq_ok h ▸ .bitField dataFirst offset _ _
  case bitJump =>
    obtain ⟨offset, -, pos, -, displacement, -, h⟩ := h
    exact OpcodeEntry.instruction_eq_ok h ▸ .bitJump offset pos displacement
  case conditionalRelative =>
    obtain ⟨cond, -, displacement, -, h⟩ := h
    exact (OpcodeEntry.special_eq_ok.1 h).2 ▸ .conditionalRelative (.ofNibble cond) displacement
  case absolute =>
    obtain ⟨cond, -, offset, -, h⟩ := h
    exact (OpcodeEntry.special_eq_ok.1 h).2 ▸ .absolute (.ofNibble cond) offset
  case segmented =>
    obtain ⟨segment, -, offset, -, h⟩ := h
    exact OpcodeEntry.instruction_eq_ok h ▸ .segmented segment offset
  case pointerBranch =>
    obtain ⟨field, -, base, -, h⟩ := h
    split at h
    · exact (OpcodeEntry.special_eq_ok.1 h).2 ▸ .pointerBranch base
    · cases h
  case relative =>
    obtain ⟨displacement, -, h⟩ := h
    exact OpcodeEntry.instruction_eq_ok h ▸ .relative displacement
  case pushAndCall =>
    obtain ⟨_, -, h⟩ := h
    cases h
  case plain => exact OpcodeEntry.instruction_eq_ok h ▸ .plain
  case short =>
    obtain ⟨code, -, h⟩ := h
    exact OpcodeEntry.instruction_eq_ok h ▸ .short code
  case trap =>
    obtain ⟨number, -, h⟩ := h
    exact OpcodeEntry.instruction_eq_ok h ▸ .trap number
  case protectedOpcode =>
    obtain ⟨inverted, -, second, -, third, -, h⟩ := h
    split at h
    · exact OpcodeEntry.instruction_eq_ok h ▸ .protectedOpcode
    · cases h
  case load mode =>
    obtain ⟨dst, -, src, -, h⟩ := h
    exact OpcodeEntry.binary_yields (.load mode dst src) h
  case save mode =>
    obtain ⟨dst, -, src, -, h⟩ := h
    exact OpcodeEntry.binary_yields (.save mode dst src) h
  case transfer dstMode srcMode =>
    obtain ⟨dst, -, src, -, h⟩ := h
    exact OpcodeEntry.binary_yields (.transfer dstMode srcMode dst src) h
  case loadDisp =>
    obtain ⟨dst, -, src, -, disp, -, h⟩ := h
    exact OpcodeEntry.binary_yields (.loadDisp dst src disp) h
  case saveDisp =>
    obtain ⟨dst, -, disp, -, src, -, h⟩ := h
    exact OpcodeEntry.binary_yields (.saveDisp dst src disp) h
  case pointerMem =>
    obtain ⟨dst, -, raw, -, h⟩ := h
    exact OpcodeEntry.binary_yields (.pointerMem dst raw) h
  case memPointer =>
    obtain ⟨raw, -, src, -, h⟩ := h
    exact OpcodeEntry.binary_yields (.memPointer raw src) h
  case wordByte =>
    obtain ⟨dst, -, src, -, h⟩ := h
    exact OpcodeEntry.binary_yields (.wordByte dst src) h
  case shortMemByte =>
    obtain ⟨code, -, raw, -, h⟩ := h
    exact OpcodeEntry.binary_yields (.shortMemByte code raw) h
  case memShortByte =>
    obtain ⟨raw, -, code, -, h⟩ := h
    exact OpcodeEntry.binary_yields (.memShortByte raw code) h
  case extensionShort =>
    obtain ⟨selector, -, count, hcount, h⟩ := h
    obtain ⟨hpos, hle⟩ := Window.extensionCount_bounds hcount
    split at h
    · exact OpcodeEntry.extension_yields (.atomic count hpos hle) rfl h
    · exact OpcodeEntry.extension_yields (.bank count hpos hle) rfl h
    · cases h
  case extensionImmediate =>
    obtain ⟨selector, -, low, -, h⟩ := h
    rcases extensionOfSelector_cases selector with ⟨hseg, hkind⟩ | ⟨hseg, hkind⟩
    · rw [if_pos hseg] at h
      simp only [bind_ok_iff] at h
      obtain ⟨_, ⟨⟩, count, hcount, h⟩ := h
      obtain ⟨hpos, hle⟩ := Window.extensionCount_bounds hcount
      exact OpcodeEntry.extension_yields (.segment _ count low hkind hpos hle) rfl h
    · rw [if_neg (by rw [hseg]; decide)] at h
      simp only [bind_ok_iff, map_ok_iff] at h
      obtain ⟨_, ⟨high, -, rfl⟩, count, hcount, h⟩ := h
      obtain ⟨hpos, hle⟩ := Window.extensionCount_bounds hcount
      have hlt : low.val + 256 * (high.val % 4) < 1024 := by omega
      exact OpcodeEntry.extension_yields (.page _ count ⟨_, hlt⟩ hkind hpos hle) rfl h
  case extensionRegister =>
    obtain ⟨selector, -, field, -, count, hcount, h⟩ := h
    obtain ⟨hpos, hle⟩ := Window.extensionCount_bounds hcount
    exact OpcodeEntry.extension_yields (.register selector count field hpos hle) rfl h

/-- A layout that answers has read its fields and then asked for the whole length of the row. -/
theorem Layout.special_of_decode {layout : Layout} (h : layout.decode entry w = .ok i) :
    ∃ mnemonic cond binds display, entry.special w mnemonic cond binds display = .ok i := by
  cases layout
  all_goals
    simp only [Layout.decode, OpcodeEntry.binary, OpcodeEntry.instruction, OpcodeEntry.extension, bind_ok_iff] at h
    repeat obtain ⟨_, -, h⟩ := h
  -- the immediate of these two depends on the row or on a field
  case shortImm | extensionImmediate =>
    split at h
    all_goals
      simp only [bind_ok_iff] at h
      obtain ⟨_, -, _, -, h⟩ := h
      exact ⟨_, _, _, _, h⟩
  -- and these three refuse some of their fields
  case pointerBranch | protectedOpcode | extensionShort =>
    split at h
    all_goals first | exact ⟨_, _, _, _, h⟩ | cases h
  all_goals exact ⟨_, _, _, _, h⟩

end Fields

/-- A decoded instruction belongs to a row of the table and is one that the row's layout can produce. -/
theorem decode_yields {bytes : List UInt8} {addr : Int} {i : Instruction} (h : decode bytes addr = .ok i) :
    ∃ entry ∈ opcodeTable, entry.layout.Yields entry addr i := by
  simp only [decode, bind_ok_iff] at h
  obtain ⟨opcode, -, h⟩ := h
  split at h
  · next entry hentry => exact ⟨entry, List.mem_of_find?_eq_some hentry, Layout.yields_of_decode h⟩
  · cases h

/-- The first byte finds the row of a decoded instruction, which has the length of the row, and that many bytes were
there. -/
theorem decode_row {bytes : List UInt8} {addr : Int} {i : Instruction} (h : decode bytes addr = .ok i) :
    ∃ first rest entry, bytes = first :: rest ∧ opcodeEntry? first.toNat = some entry ∧
      i.length = entry.length ∧ entry.length ≤ bytes.length := by
  simp only [decode, bind_ok_iff] at h
  obtain ⟨opcode, hopcode, h⟩ := h
  cases bytes with
  | nil => cases hopcode
  | cons first rest =>
    obtain rfl : first.toFin = opcode := Except.ok.inj hopcode
    split at h
    · next entry hentry =>
      obtain ⟨_, _, _, _, hspecial⟩ := Layout.special_of_decode h
      obtain ⟨hlength, rfl⟩ := OpcodeEntry.special_eq_ok.1 hspecial
      have htake : ((first :: rest).take 4).length ≤ (first :: rest).length := List.length_take_le' 4 _
      exact ⟨first, rest, entry, rfl, hentry, rfl, Nat.le_trans hlength htake⟩
    · cases h

end Lift166
