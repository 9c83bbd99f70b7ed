import Lift166.Proofs.SameFields
import Lift166.Proofs.StackBalance

/-!
# Encodings of one instruction

Decoding loses no bit but those that the instruction set leaves open. `Instruction.Ignores` lists them by what the
instruction is, and bytes decode to a given instruction just when they are long enough and agree with one of its
encodings on all other bits.
-/

namespace Lift166

/-- Instructions with one operand, or one and a condition, in the upper nibble of the second byte. -/
def upperNibbleMnemonics : List String :=
  ["neg", "negb", "cpl", "cplb", "div", "divu", "divl", "divlu", "jmpa", "calla"]

def stepMnemonics : List String := ["cmpi1", "cmpi2", "cmpd1", "cmpd2"]

/-- Instructions of two bytes without operands. -/
def bareMnemonics : List String := ["ret", "rets", "reti", "nop"]

def bitJumpMnemonics : List String := ["jb", "jnb", "jbc", "jnbs"]

def pageExtensions : List String := ["extp", "extpr"]

theorem page_not_segment : ∀ name ∈ pageExtensions, name ∉ segmentExtensions := by
  decide

/-- A location that a register points to on one side, and a memory word on the other. -/
inductive Operand.PointerAndMem : Operand → Operand → Prop
  | load (base : Register) (raw : Fin 65536) (width : Nat) :
      PointerAndMem (.indirect base .plain width 0) (.mem raw width)
  | save (raw : Fin 65536) (base : Register) (width : Nat) :
      PointerAndMem (.mem raw width) (.indirect base .plain width 0)

/-- The bits of the encoding, by byte and position, that do not matter for what the instruction is. -/
inductive Instruction.Ignores (i : Instruction) : Nat → Nat → Prop
  | lowNibble {bit : Nat} (mnemonic : i.mnemonic ∈ upperNibbleMnemonics) (low : bit < 4) : Ignores i 1 bit
  | shortExtension {bit : Nat} (mnemonic : i.mnemonic = "atomic" ∨ i.mnemonic = "extr") (low : bit < 4) :
      Ignores i 1 bit
  | extension {bit : Nat} (mnemonic : i.mnemonic ∈ segmentExtensions ++ pageExtensions) (long : i.length = 4)
      (low : bit < 4) : Ignores i 1 bit
  | step {bit : Nat} (mnemonic : i.mnemonic ∈ stepMnemonics) (long : i.length = 4) (high : 4 ≤ bit) : Ignores i 1 bit
  | move {bit : Nat} {dst src : Operand} (mnemonic : i.mnemonic = "mov" ∨ i.mnemonic = "movb")
      (dstOperand : i.operand .dst = .ok dst) (srcOperand : i.operand .src = .ok src) (between : dst.PointerAndMem src)
      (high : 4 ≤ bit) : Ignores i 1 bit
  | bare {bit : Nat} (mnemonic : i.mnemonic ∈ bareMnemonics) : Ignores i 1 bit
  | trap (mnemonic : i.mnemonic = "trap") : Ignores i 1 0
  | byteImmediate {bit : Nat} {code : Fin 256} {value : Fin 65536} (dstOperand : i.operand .dst = .ok (.short code 1))
      (srcOperand : i.operand .src = .ok (.imm value 1)) : Ignores i 3 bit
  | segment {bit : Nat} (mnemonic : i.mnemonic ∈ segmentExtensions) (long : i.length = 4) : Ignores i 3 bit
  | page {bit : Nat} (mnemonic : i.mnemonic ∈ pageExtensions) (long : i.length = 4) (high : 2 ≤ bit) : Ignores i 3 bit
  | bitJump {bit : Nat} (mnemonic : i.mnemonic ∈ bitJumpMnemonics) (low : bit < 4) : Ignores i 3 bit

/-! ## The layouts of the mnemonics -/

/-- The mnemonic and the length tell the layout, as far as it leaves bits open. -/
structure Layout.Known (layout : Layout) (mnemonic : String) (length : Nat) : Prop where
  upperNibble : mnemonic ∈ upperNibbleMnemonics ↔ layout = .dstReg ∨ layout = .srcReg ∨ layout = .absolute
  shortExtension : mnemonic = "atomic" ∨ mnemonic = "extr" ↔ layout = .extensionShort
  extension : mnemonic ∈ segmentExtensions ++ pageExtensions ∧ length = 4 ↔ layout = .extensionImmediate
  step : mnemonic ∈ stepMnemonics ∧ length = 4 ↔ layout = .regMem ∨ layout = .regWord
  move : layout = .pointerMem ∨ layout = .memPointer → mnemonic = "mov" ∨ mnemonic = "movb"
  bare : mnemonic ∈ bareMnemonics ↔ layout = .plain
  trap : mnemonic = "trap" ↔ layout = .trap
  bitJump : mnemonic ∈ bitJumpMnemonics ↔ layout = .bitJump

theorem Layout.known_iff (layout : Layout) (mnemonic : String) (length : Nat) : layout.Known mnemonic length ↔
    (mnemonic ∈ upperNibbleMnemonics ↔ layout = .dstReg ∨ layout = .srcReg ∨ layout = .absolute) ∧
    (mnemonic = "atomic" ∨ mnemonic = "extr" ↔ layout = .extensionShort) ∧
    (mnemonic ∈ segmentExtensions ++ pageExtensions ∧ length = 4 ↔ layout = .extensionImmediate) ∧
    (mnemonic ∈ stepMnemonics ∧ length = 4 ↔ layout = .regMem ∨ layout = .regWord) ∧
    (layout = .pointerMem ∨ layout = .memPointer → mnemonic = "mov" ∨ mnemonic = "movb") ∧
    (mnemonic ∈ bareMnemonics ↔ layout = .plain) ∧ (mnemonic = "trap" ↔ layout = .trap) ∧
    (mnemonic ∈ bitJumpMnemonics ↔ layout = .bitJump) :=
  ⟨fun ⟨a, b, c, d, e, f, g, h⟩ => ⟨a, b, c, d, e, f, g, h⟩, fun ⟨a, b, c, d, e, f, g, h⟩ => ⟨a, b, c, d, e, f, g, h⟩⟩

instance (layout : Layout) (mnemonic : String) (length : Nat) : Decidable (layout.Known mnemonic length) :=
  decidable_of_iff' _ (layout.known_iff mnemonic length)

theorem opcodeTable_known : ∀ entry ∈ opcodeTable, entry.layout.Known entry.mnemonic entry.length := by
  decide +kernel

theorem Layout.secondByte_high (layout : Layout) : layout.secondByte.high ≤ 8 := by
  cases layout <;> simp [secondByte]

theorem Layout.fourthByte_high (layout : Layout) (width : Nat) (segment : Bool) :
    (layout.fourthByte width segment).high ≤ 8 := by
  unfold fourthByte
  split
  all_goals grind

section Layouts

variable {entry : OpcodeEntry} {layout : Layout} {pc : Int} {i : Instruction}

theorem Extension.Encoded.known {ext : Extension} (h : ext.Encoded layout) :
    layout.Known ext.kind.name layout.size := by
  have hshort : ∀ kind ∈ [ExtensionKind.atomic, .extr], Layout.extensionShort.Known kind.name 2 := by decide
  have himm : ∀ kind ∈ [ExtensionKind.exts, .extsr, .extp, .extpr], Layout.extensionImmediate.Known kind.name 4 := by
    decide
  have hreg : ∀ selector, Layout.extensionRegister.Known (extensionOfSelector selector).name 2 := by decide
  cases h with
  | atomic => exact hshort .atomic (by simp)
  | bank => exact hshort .extr (by simp)
  | segment kind count value sort => exact himm kind (by rcases sort with rfl | rfl <;> simp)
  | page kind count value sort => exact himm kind (by rcases sort with rfl | rfl <;> simp)
  | register selector => exact hreg selector

theorem Layout.Yields.known (hmem : entry ∈ opcodeTable) (h : entry.layout.Yields entry pc i) :
    entry.layout.Known i.mnemonic entry.length := by
  rcases h.mnemonic_cases with hname | ⟨ext, hencoded, hname⟩
  · rw [hname]
    exact opcodeTable_known entry hmem
  · rw [hname, opcodeTable_size entry hmem]
    exact hencoded.known

theorem Layout.Yields.between_iff (h : layout.Yields entry pc i) :
    (∃ dst src, i.operand .dst = .ok dst ∧ i.operand .src = .ok src ∧ dst.PointerAndMem src) ↔
      layout = .pointerMem ∨ layout = .memPointer := by
  constructor
  · rintro ⟨dst, src, hdst, hsrc, hbetween⟩
    have hpair := h.pair_of_operands hdst hsrc
    cases hbetween <;> cases hpair <;> simp
  · rintro (rfl | rfl)
    all_goals cases h with
    | pair operands =>
      cases operands
      exact ⟨_, _, rfl, rfl, by constructor⟩
    | extension encoded => cases encoded

theorem Layout.Pair.byteImmediate {dst src : Operand} (h : layout.Pair entry dst src)
    (hword : layout = .shortWord → entry.width = 2) {code : Fin 256} {value : Fin 65536} (hdst : dst = .short code 1)
    (hsrc : src = .imm value 1) : layout = .shortImm ∧ entry.width = 1 := by
  cases h with
  | shortByte _ _ byte => exact ⟨rfl, byte⟩
  | shortImm =>
    obtain ⟨-, hwidth⟩ := Operand.short.inj hdst
    exact ⟨rfl, hwidth⟩
  | shortWord =>
    obtain ⟨-, hwidth⟩ := Operand.short.inj hdst
    rw [hword rfl] at hwidth
    cases hwidth
  | shortMem | shortMemByte => cases hsrc
  | _ => cases hdst

theorem Layout.Yields.byteImmediate_iff (h : layout.Yields entry pc i)
    (hword : layout = .shortWord → entry.width = 2) :
    (∃ (code : Fin 256) (value : Fin 65536),
      i.operand .dst = .ok (.short code 1) ∧ i.operand .src = .ok (.imm value 1)) ↔
      layout = .shortImm ∧ entry.width = 1 := by
  constructor
  · rintro ⟨code, value, hdst, hsrc⟩
    exact (h.pair_of_operands hdst hsrc).byteImmediate hword rfl rfl
  · rintro ⟨rfl, hwidth⟩
    cases h with
    | pair operands =>
      cases operands with
      | shortByte code data byte =>
        exact ⟨code, data.castLE (by decide), by rw [← byte]; rfl, by rw [← byte]; rfl⟩
      | shortImm _ _ word => exact absurd hwidth word
    | extension encoded => cases encoded

/-- The second byte is ignored outside the range that the layout reads. -/
theorem Layout.Yields.ignores_second (h : layout.Yields entry pc i) (hknown : layout.Known i.mnemonic entry.length)
    {bit : Nat} (hbit : bit < 8) :
    i.Ignores 1 bit ↔ ¬(layout.secondByte.low ≤ bit ∧ bit < layout.secondByte.high) := by
  have hlength := h.header.2.1
  constructor
  · -- each kind of ignored bits belongs to layouts that do not read them
    rintro hignores ⟨hlow, hhigh⟩
    cases hignores with
    | lowNibble mnemonic low =>
      rcases hknown.upperNibble.1 mnemonic with rfl | rfl | rfl <;> exact absurd hlow (Nat.not_le_of_lt low)
    | shortExtension mnemonic low =>
      obtain rfl := hknown.shortExtension.1 mnemonic
      exact absurd hlow (Nat.not_le_of_lt low)
    | extension mnemonic long low =>
      obtain rfl := hknown.extension.1 ⟨mnemonic, by omega⟩
      exact absurd hlow (Nat.not_le_of_lt low)
    | step mnemonic long high =>
      rcases hknown.step.1 ⟨mnemonic, by omega⟩ with rfl | rfl <;> exact absurd hhigh (Nat.not_lt_of_le high)
    | move mnemonic dstOperand srcOperand between high =>
      rcases h.between_iff.1 ⟨_, _, dstOperand, srcOperand, between⟩ with rfl | rfl <;>
        exact absurd hhigh (Nat.not_lt_of_le high)
    | bare mnemonic =>
      obtain rfl := hknown.bare.1 mnemonic
      exact absurd hhigh (Nat.not_lt_zero bit)
    | trap mnemonic =>
      obtain rfl := hknown.trap.1 mnemonic
      exact absurd hlow (by decide)
  · intro hout
    cases layout with
    | dstReg | srcReg | absolute =>
      simp only [secondByte] at hout
      exact .lowNibble (hknown.upperNibble.2 (by simp)) (by omega)
    | extensionShort =>
      simp only [secondByte] at hout
      exact .shortExtension (hknown.shortExtension.2 rfl) (by omega)
    | extensionImmediate =>
      simp only [secondByte] at hout
      obtain ⟨hname, hlong⟩ := hknown.extension.2 rfl
      exact .extension hname (by omega) (by omega)
    | regMem | regWord =>
      simp only [secondByte] at hout
      obtain ⟨hname, hlong⟩ := hknown.step.2 (by simp)
      exact .step hname (by omega) (by omega)
    | pointerMem | memPointer =>
      simp only [secondByte] at hout
      obtain ⟨dst, src, hdst, hsrc, hbetween⟩ := h.between_iff.2 (by simp)
      exact .move (hknown.move (by simp)) hdst hsrc hbetween (by omega)
    | plain => exact .bare (hknown.bare.2 rfl)
    | trap =>
      simp only [secondByte] at hout
      obtain rfl : bit = 0 := by omega
      exact .trap (hknown.trap.2 rfl)
    | _ => exact absurd ⟨Nat.zero_le bit, hbit⟩ hout

theorem Layout.Yields.ignores_fourth (h : layout.Yields entry pc i) (hknown : layout.Known i.mnemonic entry.length)
    (hword : layout = .shortWord → entry.width = 2) {bit : Nat} (hbit : bit < 8) :
    i.Ignores 3 bit ↔ ¬((layout.fourthByte entry.width (i.mnemonic ∈ segmentExtensions)).low ≤ bit ∧
      bit < (layout.fourthByte entry.width (i.mnemonic ∈ segmentExtensions)).high) := by
  have hlength := h.header.2.1
  constructor
  · rintro hignores ⟨hlow, hhigh⟩
    cases hignores with
    | byteImmediate dstOperand srcOperand =>
      obtain ⟨rfl, hwidth⟩ := (h.byteImmediate_iff hword).1 ⟨_, _, dstOperand, srcOperand⟩
      simp [fourthByte, hwidth] at hhigh
    | segment mnemonic long =>
      obtain rfl := hknown.extension.1 ⟨List.mem_append_left _ mnemonic, by omega⟩
      simp [fourthByte, mnemonic] at hhigh
    | page mnemonic long high =>
      obtain rfl := hknown.extension.1 ⟨List.mem_append_right _ mnemonic, by omega⟩
      have hsegment : i.mnemonic ∉ segmentExtensions := page_not_segment _ mnemonic
      simp only [fourthByte, hsegment, decide_false] at hhigh
      exact absurd hhigh (Nat.not_lt_of_le high)
    | bitJump mnemonic low =>
      obtain rfl := hknown.bitJump.1 mnemonic
      exact absurd hlow (Nat.not_le_of_lt low)
  · intro hout
    cases layout with
    | shortImm =>
      by_cases hwidth : entry.width = 1
      · obtain ⟨code, value, hdst, hsrc⟩ := (h.byteImmediate_iff hword).2 ⟨rfl, hwidth⟩
        exact .byteImmediate hdst hsrc
      · simp only [fourthByte, hwidth, if_false] at hout
        exact absurd ⟨Nat.zero_le bit, hbit⟩ hout
    | bitJump =>
      simp only [fourthByte] at hout
      exact .bitJump (hknown.bitJump.2 rfl) (by omega)
    | extensionImmediate =>
      obtain ⟨hname, hlong⟩ := hknown.extension.2 rfl
      by_cases hsegment : i.mnemonic ∈ segmentExtensions
      · exact .segment hsegment (by omega)
      · simp only [fourthByte, hsegment, decide_false, Bool.false_eq_true, if_false] at hout
        have hpage := (List.mem_append.1 hname).resolve_left hsegment
        exact .page hpage (by omega) (by omega)
    | _ => exact absurd ⟨Nat.zero_le bit, hbit⟩ hout

/-- Windows agree on the fields of a layout just when they agree on the bits behind the opcode that are not ignored. -/
theorem Layout.Yields.sameFields_iff (h : layout.Yields entry pc i) (hknown : layout.Known i.mnemonic entry.length)
    (hword : layout = .shortWord → entry.width = 2) (hsize : layout.size = 2 ∨ layout.size = 4) {w v : Window} :
    layout.SameFields entry i w v ↔
      ∀ index bit, 0 < index → index < layout.size → bit < 8 → ¬i.Ignores index bit →
        bitAt w.bytes index bit = bitAt v.bytes index bit := by
  constructor
  · rintro ⟨hsecond, hthird, hfourth⟩ index bit hpos hlt hbit hshown
    obtain rfl | rfl | rfl : index = 1 ∨ index = 2 ∨ index = 3 := by omega
    · rw [h.ignores_second hknown hbit, not_not] at hshown
      exact hsecond bit hshown.1 hshown.2
    · exact hthird hlt bit (Nat.zero_le bit) hbit
    · rw [h.ignores_fourth hknown hword hbit, not_not] at hshown
      exact hfourth (by omega) bit hshown.1 hshown.2
  · intro hsame
    constructor
    · intro bit hlow hhigh
      have hbit : bit < 8 := Nat.lt_of_lt_of_le hhigh layout.secondByte_high
      refine hsame 1 bit (by decide) (by omega) hbit ?_
      rw [h.ignores_second hknown hbit, not_not]
      exact ⟨hlow, hhigh⟩
    · intro hlong bit _ hbit
      exact hsame 2 bit (by decide) hlong hbit (by rintro ⟨⟩)
    · intro hlong bit hlow hhigh
      have hbit : bit < 8 := Nat.lt_of_lt_of_le hhigh (layout.fourthByte_high _ _)
      refine hsame 3 bit (by decide) (by omega) hbit ?_
      rw [h.ignores_fourth hknown hword hbit, not_not]
      exact ⟨hlow, hhigh⟩

end Layouts

/-! ## Bytes -/

section Decoding

variable {bytes other : List UInt8} {addr : Int} {i : Instruction}

theorem bitAt_take {count index : Nat} (h : index < count) (bit : Nat) :
    bitAt (bytes.take count) index bit = bitAt bytes index bit := by
  rw [bitAt, bitAt, List.getElem?_take_of_lt h]

theorem opcode_of_decode {first : UInt8} (hfirst : bytes.head? = some first) (h : decode bytes addr = .ok i) :
    i.opcode = first.toNat := by
  obtain ⟨first', rest, entry, rfl, hrow, -, -⟩ := decode_row h
  cases hfirst
  have hopcode := List.find?_some (p := fun row : OpcodeEntry => row.opcode == first.toNat) hrow
  rw [decode_eq_layout rfl hrow] at h
  obtain ⟨_, _, _, _, hspecial⟩ := Layout.special_of_decode h
  obtain ⟨-, rfl⟩ := OpcodeEntry.special_eq_ok.1 hspecial
  exact congrArg Int.ofNat (beq_iff_eq.1 hopcode)

theorem head_eq_iff {first second : UInt8} (hfirst : bytes.head? = some first) (hsecond : other.head? = some second) :
    first = second ↔ ∀ bit, bit < 8 → bitAt bytes 0 bit = bitAt other 0 bit := by
  obtain ⟨_, rfl⟩ := List.head?_eq_some_iff.1 hfirst
  obtain ⟨_, rfl⟩ := List.head?_eq_some_iff.1 hsecond
  have hslice := slice_eq_iff 0 8 first.toNat second.toNat
  have hlt := first.toNat_lt
  have hlt' := second.toNat_lt
  simp only [Nat.shiftRight_zero, Nat.sub_zero, Nat.reduceShiftLeft, Nat.mod_eq_of_lt hlt, Nat.mod_eq_of_lt hlt',
    UInt8.toNat_inj, Nat.zero_le, true_implies] at hslice
  simpa [bitAt] using hslice

/-- Bytes behind the same opcode. -/
theorem decode_eq_iff_of_head {first : UInt8} (hfirst : bytes.head? = some first) (hother : other.head? = some first)
    (h : decode bytes addr = .ok i) :
    decode other addr = .ok i ↔ i.length ≤ other.length ∧ ∀ index bit : Nat, 0 < index → index < i.length → bit < 8 →
      ¬i.Ignores index bit → bitAt bytes index bit = bitAt other index bit := by
  obtain ⟨first', rest, entry, rfl, hrow, hlength, hcomplete⟩ := decode_row h
  cases hfirst
  have hmem := mem_opcodeTable hrow
  have hsize := opcodeTable_size entry hmem
  have hlong := opcodeTable_length entry hmem
  have hdecode := h
  rw [decode_eq_layout rfl hrow] at hdecode
  have hyields : entry.layout.Yields entry addr i := Layout.yields_of_decode hdecode
  have hfields := hyields.sameFields_iff (hyields.known hmem) (fun hword => opcodeTable_word entry hmem (.inl hword))
    (hsize ▸ hlong) (w := ⟨addr, (first :: rest).take 4⟩) (v := ⟨addr, other.take 4⟩)
  constructor
  · intro hdecode'
    have hcomplete' := (complete_of_row hother hrow hdecode').2
    rw [decode_eq_layout hother hrow] at hdecode'
    have hsame := hfields.1 (Layout.sameFields_of_decode rfl hdecode hdecode')
    refine ⟨by omega, fun index bit hpos hlt hbit hshown => ?_⟩
    have hbits := hsame index bit hpos (by omega) hbit hshown
    rwa [bitAt_take (by omega), bitAt_take (by omega)] at hbits
  · rintro ⟨henough, hsame⟩
    obtain ⟨rest', rfl⟩ := List.head?_eq_some_iff.1 hother
    rw [decode_eq_layout rfl hrow]
    refine Layout.decode_of_sameFields hsize ?_ ?_ ?_ ?_ hdecode (hfields.2 fun index bit hpos hlt hbit hshown => ?_)
    · rw [List.length_take]
      omega
    · rw [List.length_take]
      omega
    · rfl
    · rfl
    · rw [bitAt_take (by omega), bitAt_take (by omega)]
      exact hsame index bit hpos (by omega) hbit hshown

/-- **Decoding loses no operand bit.** Bytes decode to an instruction just when they are enough and agree with an
encoding of it on the bits that the instruction does not ignore. -/
theorem decode_eq_iff_shown_bits (h : decode bytes addr = .ok i) :
    decode other addr = .ok i ↔ i.length ≤ other.length ∧ ∀ index bit : Nat, index < i.length → bit < 8 →
      ¬i.Ignores index bit → bitAt bytes index bit = bitAt other index bit := by
  obtain ⟨first, rest, entry, rfl, -, hlength, hcomplete⟩ := decode_row h
  have hlong := length_of_decode h
  constructor
  · intro hother
    obtain ⟨second, rest', entry', rfl, -, -, -⟩ := decode_row hother
    -- the instruction carries its opcode, so both start with the same byte
    have hopcode : first = second := by
      apply UInt8.toNat_inj.1
      exact Int.ofNat_inj.1 ((opcode_of_decode rfl h).symm.trans (opcode_of_decode rfl hother))
    subst hopcode
    obtain ⟨henough, hsame⟩ := (decode_eq_iff_of_head rfl rfl h).1 hother
    refine ⟨henough, fun index bit hlt hbit hshown => ?_⟩
    by_cases hzero : index = 0
    · subst hzero
      exact (head_eq_iff rfl rfl).1 rfl bit hbit
    · exact hsame index bit (by omega) hlt hbit hshown
  · rintro ⟨henough, hsame⟩
    cases other with
    | nil =>
      simp only [List.length_nil] at henough
      omega
    | cons second rest' =>
      have hopcode : first = second := by
        refine (head_eq_iff rfl rfl).2 fun bit hbit => hsame 0 bit (by omega) hbit ?_
        rintro ⟨⟩
      subst hopcode
      refine (decode_eq_iff_of_head rfl rfl h).2 ⟨henough, fun index bit _ hlt hbit hshown => ?_⟩
      exact hsame index bit hlt hbit hshown

theorem decode_eq_iff_shown_bits_page : ∃ i, decode [0xD7, 0x50, 0x34, 0x02] 0x1000 = .ok i ∧
    decode [0xD7, 0x5F, 0x34, 0xFE] 0x1000 = .ok i ∧ ∀ index bit : Nat, index < i.length → bit < 8 →
      ¬i.Ignores index bit → bitAt [0xD7, 0x50, 0x34, 0x02] index bit = bitAt [0xD7, 0x5F, 0x34, 0xFE] index bit := by
  obtain ⟨i, h⟩ : ∃ i, decode [0xD7, 0x50, 0x34, 0x02] 0x1000 = .ok i := ⟨_, rfl⟩
  have hother : decode [0xD7, 0x5F, 0x34, 0xFE] 0x1000 = .ok i := h
  exact ⟨i, h, hother, ((decode_eq_iff_shown_bits h).1 hother).2⟩

end Decoding

end Lift166
