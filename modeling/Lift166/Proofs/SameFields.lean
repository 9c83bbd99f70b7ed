import Lift166.Proofs.Relocation

/-!
# The fields of a layout

Windows that decode to one instruction agree on every field of the layout, and windows that agree on them decode alike.
In each byte the bits that a layout reads form one range, so it is described by the range of its second byte and that of
its fourth; the third byte is read whole.
-/

namespace Lift166

/-- A bit of the bytes, if the byte is there. -/
def bitAt (bytes : List UInt8) (index bit : Nat) : Option Bool :=
  bytes[index]?.map fun byte => byte.toNat.testBit bit

theorem slice_eq_iff (low high x y : Nat) :
    x >>> low % 1 <<< (high - low) = y >>> low % 1 <<< (high - low) ↔
      ∀ bit, low ≤ bit → bit < high → x.testBit bit = y.testBit bit := by
  rw [Nat.one_shiftLeft]
  constructor
  · intro h bit hlow hhigh
    have hbit := congrArg (fun z => z.testBit (bit - low)) h
    have hin : bit - low < high - low := by omega
    simpa [Nat.testBit_mod_two_pow, Nat.testBit_shiftRight, hin, Nat.add_sub_cancel' hlow] using hbit
  · intro h
    apply Nat.eq_of_testBit_eq
    intro k
    rw [Nat.testBit_mod_two_pow, Nat.testBit_mod_two_pow, Nat.testBit_shiftRight, Nat.testBit_shiftRight]
    by_cases hk : k < high - low
    · rw [h (low + k) (by omega) (by omega)]
    · rw [decide_eq_false hk, Bool.false_and, Bool.false_and]

/-! ## Fields -/

namespace Window

/-- The windows agree on the bits of a byte from `low` up to but not including `high`. -/
def SameBits (w v : Window) (index low high : Nat) : Prop :=
  ∀ bit, low ≤ bit → bit < high → bitAt w.bytes index bit = bitAt v.bytes index bit

variable {w v : Window} {index : Nat}

theorem SameBits.join {low middle high : Nat} (hlow : w.SameBits v index low middle)
    (hhigh : w.SameBits v index middle high) : w.SameBits v index low high := by
  intro bit hle hlt
  by_cases hmiddle : bit < middle
  · exact hlow bit hle hmiddle
  · exact hhigh bit (by omega) hlt

theorem SameBits.mono {low high low' high' : Nat} (h : w.SameBits v index low high) (hlow : low ≤ low')
    (hhigh : high' ≤ high) : w.SameBits v index low' high' := by
  intro bit hle hlt
  exact h bit (by omega) (by omega)

/-- A field that is a range of bits of one byte is the same in both windows just when these bits are. -/
theorem map_byte_eq_iff {α : Type} {f : Fin 256 → α} {low high : Nat} (hne : low < high)
    (hf : ∀ b c : Fin 256, f b = f c ↔ b.val >>> low % 1 <<< (high - low) = c.val >>> low % 1 <<< (high - low))
    (hw : index < w.bytes.length) : (v.byte index).map f = (w.byte index).map f ↔ w.SameBits v index low high := by
  have hbyte : w.bytes[index]? = some w.bytes[index] := List.getElem?_eq_getElem hw
  rw [byte_of_getElem? hbyte]
  cases hother : v.bytes[index]? with
  | none =>
    have hmissing : v.byte index = .error (.tooShort (index + 1) v.bytes.length) := by rw [byte, hother]
    rw [hmissing]
    constructor
    · intro h
      cases h
    · intro h
      have hbit := h low (Nat.le_refl low) hne
      rw [bitAt, bitAt, hbyte, hother] at hbit
      cases hbit
  | some other =>
    have hsame : w.SameBits v index low high ↔
        ∀ bit, low ≤ bit → bit < high → other.toNat.testBit bit = w.bytes[index].toNat.testBit bit := by
      simp only [SameBits, bitAt, hbyte, hother, Option.map_some, Option.some.injEq]
      exact forall_congr' fun bit => forall_congr' fun _ => forall_congr' fun _ => eq_comm
    rw [byte_of_getElem? hother, hsame, ← slice_eq_iff low high other.toNat w.bytes[index].toNat]
    simp only [Except.map, Except.ok.injEq]
    exact hf other.toFin w.bytes[index].toFin

theorem byte_eq_iff (hw : index < w.bytes.length) : v.byte index = w.byte index ↔ w.SameBits v index 0 8 := by
  have hid (answer : Except DecodeError (Fin 256)) : answer.map id = answer := by cases answer <;> rfl
  rw [← map_byte_eq_iff (f := id) (by decide) _ hw, hid, hid]
  intro b c
  simp only [id_eq, Fin.ext_iff, Nat.reduceSub, Nat.reduceShiftLeft, Nat.shiftRight_zero]
  omega

theorem nibbleHigh_eq_iff (hw : index < w.bytes.length) :
    v.nibbleHigh index = w.nibbleHigh index ↔ w.SameBits v index 4 8 := by
  refine map_byte_eq_iff (by decide) (fun b c => ?_) hw
  simp only [Fin.mk.injEq, Nat.shiftRight_eq_div_pow, Nat.reduceSub, Nat.reduceShiftLeft, Nat.reducePow]
  omega

theorem nibbleLow_eq_iff (hw : index < w.bytes.length) :
    v.nibbleLow index = w.nibbleLow index ↔ w.SameBits v index 0 4 := by
  refine map_byte_eq_iff (by decide) (fun b c => ?_) hw
  simp only [Fin.mk.injEq, Nat.reduceSub, Nat.reduceShiftLeft, Nat.shiftRight_zero]

theorem trap7_eq_iff (hw : 1 < w.bytes.length) : v.trap7 = w.trap7 ↔ w.SameBits v 1 1 8 := by
  refine map_byte_eq_iff (by decide) (fun b c => ?_) hw
  simp only [Fin.mk.injEq, Nat.shiftRight_eq_div_pow, Nat.reduceSub, Nat.reduceShiftLeft, Nat.reducePow]
  omega

theorem extensionCount_eq_iff (hw : 1 < w.bytes.length) :
    v.extensionCount = w.extensionCount ↔ w.SameBits v 1 4 6 := by
  refine map_byte_eq_iff (by decide) (fun b c => ?_) hw
  simp only [Nat.shiftRight_eq_div_pow, Nat.reduceSub, Nat.reduceShiftLeft, Nat.reducePow]
  omega

theorem extensionSelector_eq_iff (hw : 1 < w.bytes.length) :
    v.extensionSelector = w.extensionSelector ↔ w.SameBits v 1 6 8 := by
  refine map_byte_eq_iff (by decide) (fun b c => ?_) hw
  simp only [Fin.mk.injEq, Nat.shiftRight_eq_div_pow, Nat.reduceSub, Nat.reduceShiftLeft, Nat.reducePow]
  omega

/-- The fourth byte of a page holds its two upper bits. -/
theorem pageHigh_eq_iff (low : Nat) (hw : 3 < w.bytes.length) :
    ((v.byte 3).map fun high => low + 256 * (high.val % 4)) = ((w.byte 3).map fun high => low + 256 * (high.val % 4)) ↔
      w.SameBits v 3 0 2 := by
  refine map_byte_eq_iff (by decide) (fun b c => ?_) hw
  simp only [Nat.reduceSub, Nat.reduceShiftLeft, Nat.shiftRight_zero]
  omega

/-- A word is the same in both windows just when both its bytes are. -/
theorem word_eq_iff (hw : index + 1 < w.bytes.length) :
    v.word index = w.word index ↔ w.SameBits v index 0 8 ∧ w.SameBits v (index + 1) 0 8 := by
  rw [← byte_eq_iff (Nat.lt_of_succ_lt hw), ← byte_eq_iff hw]
  have hlow : w.bytes[index]? = some w.bytes[index] := List.getElem?_eq_getElem (by omega)
  have hhigh : w.bytes[index + 1]? = some w.bytes[index + 1] := List.getElem?_eq_getElem hw
  simp only [word, byte, hlow, hhigh]
  cases v.bytes[index]? with
  | none => simp
  | some low =>
    cases v.bytes[index + 1]? with
    | none => simp
    | some high =>
      have hlt := low.toNat_lt
      have hlt' := w.bytes[index].toNat_lt
      simp only [Except.ok.injEq, Fin.ext_iff, UInt8.toFin_val]
      omega

theorem lt_of_byte {x : Fin 256} (h : w.byte index = .ok x) : index < w.bytes.length := by
  obtain ⟨byte, hbyte, -⟩ := byte_eq_ok h
  exact (List.getElem?_eq_some_iff.1 hbyte).1

theorem lt_of_map_byte {α : Type} {f : Fin 256 → α} {x : α} (h : (w.byte index).map f = .ok x) :
    index < w.bytes.length := by
  obtain ⟨b, hb, -⟩ := map_ok_iff.1 h
  exact lt_of_byte hb

namespace SameBits

theorem empty (index : Nat) : w.SameBits v index 0 0 := by
  intro bit _ hlt
  exact absurd hlt (Nat.not_lt_zero bit)

theorem byte {x : Fin 256} (hw : w.byte index = .ok x) (hv : v.byte index = .ok x) : w.SameBits v index 0 8 :=
  (byte_eq_iff (lt_of_byte hw)).1 (hv.trans hw.symm)

theorem nibbleHigh {x : Fin 16} (hw : w.nibbleHigh index = .ok x) (hv : v.nibbleHigh index = .ok x) :
    w.SameBits v index 4 8 :=
  (nibbleHigh_eq_iff (lt_of_map_byte hw)).1 (hv.trans hw.symm)

theorem nibbleLow {x : Fin 16} (hw : w.nibbleLow index = .ok x) (hv : v.nibbleLow index = .ok x) :
    w.SameBits v index 0 4 :=
  (nibbleLow_eq_iff (lt_of_map_byte hw)).1 (hv.trans hw.symm)

theorem nibbles {x y : Fin 16} (hw : w.nibbleHigh index = .ok x) (hv : v.nibbleHigh index = .ok x)
    (hw' : w.nibbleLow index = .ok y) (hv' : v.nibbleLow index = .ok y) : w.SameBits v index 0 8 :=
  (nibbleLow hw' hv').join (nibbleHigh hw hv)

theorem trap {x : Fin 128} (hw : w.trap7 = .ok x) (hv : v.trap7 = .ok x) : w.SameBits v 1 1 8 :=
  (trap7_eq_iff (lt_of_map_byte hw)).1 (hv.trans hw.symm)

/-- The count and the selector of an extension stand side by side. -/
theorem extension {count : Nat} {selector : Fin 4} (hw : w.extensionCount = .ok count)
    (hv : v.extensionCount = .ok count) (hw' : w.extensionSelector = .ok selector)
    (hv' : v.extensionSelector = .ok selector) : w.SameBits v 1 4 8 := by
  have hcount := (extensionCount_eq_iff (lt_of_map_byte hw)).1 (hv.trans hw.symm)
  have hselector := (extensionSelector_eq_iff (lt_of_map_byte hw')).1 (hv'.trans hw'.symm)
  exact hcount.join hselector

/-- Targets in the same place are as far away, since a displacement is small against the address space. -/
theorem relativeTarget {pc : Int} {length : Nat} {d e : Int} (hw : w.rel8 index = .ok d) (hv : v.rel8 index = .ok e)
    (h : Lift166.relativeTarget pc d length = Lift166.relativeTarget pc e length) : w.SameBits v index 0 8 := by
  obtain ⟨b, hb, hd, hd', hbyte⟩ := rel8_eq_ok hw
  obtain ⟨c, hc, he, he', hbyte'⟩ := rel8_eq_ok hv
  rw [relativeTarget_eq, relativeTarget_eq] at h
  have hsame : d = e := by omega
  obtain rfl : b = c := UInt8.toNat_inj.1 (by omega)
  intro bit _ _
  rw [bitAt, bitAt, hb, hc]

end SameBits

theorem word_same {x : Fin 65536} (hw : w.word 2 = .ok x) (hv : v.word 2 = .ok x) :
    w.SameBits v 2 0 8 ∧ w.SameBits v 3 0 8 := by
  have hlen : 3 < w.bytes.length := by
    unfold word at hw
    split at hw
    · next hhigh => exact (List.getElem?_eq_some_iff.1 hhigh).1
    · cases hw
  exact (word_eq_iff hlen).1 (hv.trans hw.symm)

end Window

/-- The mnemonics of the extensions of a segment. -/
def segmentExtensions : List String := ["exts", "extsr"]

/-! ## Operands show their fields -/

section Operands

variable {width : Nat}

theorem Register.wordAt_inj {a b : Fin 16} (h : wordAt a.val = wordAt b.val) : a = b := by
  have ha : lowBits 4 a.val = a.val := lowBits_of_lt a.isLt
  have hb : lowBits 4 b.val = b.val := lowBits_of_lt b.isLt
  rw [wordAt, wordAt, ha, hb] at h
  injection h with h
  rwa [Fin.ofNat_val_eq_self, Fin.ofNat_val_eq_self] at h

theorem Register.byteAt_inj {a b : Fin 16} (h : byteAt a.val = byteAt b.val) : a = b := by
  have ha : lowBits 4 a.val = a.val := lowBits_of_lt a.isLt
  have hb : lowBits 4 b.val = b.val := lowBits_of_lt b.isLt
  rw [byteAt, byteAt, ha, hb] at h
  injection h with h
  rwa [Fin.ofNat_val_eq_self, Fin.ofNat_val_eq_self] at h

theorem Operand.ofNibble_inj {a b : Fin 16} : ofNibble a width = ofNibble b width ↔ a = b := by
  refine ⟨fun h => ?_, fun h => h ▸ rfl⟩
  injection h with h
  unfold Register.ofField at h
  split at h
  · exact Register.byteAt_inj h
  · exact Register.wordAt_inj h

theorem Operand.ofPointer_inj {a b : Fin 16} {mode mode' : IndirectMode} :
    ofPointer a mode width = ofPointer b mode' width ↔ a = b ∧ mode = mode' := by
  refine ⟨fun h => ?_, fun ⟨ha, hm⟩ => ha ▸ hm ▸ rfl⟩
  injection h with hbase hmode
  exact ⟨Register.wordAt_inj hbase, hmode⟩

theorem Operand.ofDisplaced_inj {a b : Fin 16} {disp disp' : Fin 65536} :
    ofDisplaced a disp width = ofDisplaced b disp' width ↔ a = b ∧ disp = disp' := by
  refine ⟨fun h => ?_, fun ⟨ha, hd⟩ => ha ▸ hd ▸ rfl⟩
  injection h with hbase _ _ hdisp
  exact ⟨Register.wordAt_inj hbase, Fin.ext (Int.ofNat.inj hdisp)⟩

theorem Operand.ofSmall_inj {n : Nat} {a b : Fin n} {hn : n ≤ 65536} :
    ofSmall a hn width = ofSmall b hn width ↔ a = b := by
  refine ⟨fun h => ?_, fun h => h ▸ rfl⟩
  injection h with h
  have hval : (a.castLE hn).val = (b.castLE hn).val := congrArg Fin.val h
  exact Fin.ext hval

theorem Operand.bit_inj {a b : Fin 256} {pos pos' : Fin 16} :
    bit a.val pos = bit b.val pos' ↔ a = b ∧ pos = pos' := by
  rw [Operand.bit.injEq, Int.ofNat_inj, Fin.val_inj]

end Operands

theorem Condition.ofNibble_inj {a b : Fin 16} (h : ofNibble a = ofNibble b) : a = b := by
  apply Fin.ext
  rw [← ofNibble_number a, ← ofNibble_number b, h]

theorem extensionOfSelector_inj {a b : Fin 4} (h : extensionOfSelector a = extensionOfSelector b) : a = b := by
  revert a b
  decide

/-- The extensions of a segment by their mnemonics. -/
theorem extensionOfSelector_segment (selector : Fin 4) :
    (extensionOfSelector selector).name ∈ segmentExtensions ↔ (extensionOfSelector selector).hasSegment = true := by
  revert selector
  decide

/-! ## Layouts -/

/-- A range of bits of a byte, from `low` up to but not including `high`. -/
structure BitRange where
  low : Nat
  high : Nat

/-- The bits of the second byte that a layout reads. -/
def Layout.secondByte : Layout → BitRange
  | dstReg | srcReg | absolute | extensionShort | extensionImmediate => ⟨4, 8⟩
  | regMem | regWord | pointerMem | memPointer => ⟨0, 4⟩
  | trap => ⟨1, 8⟩
  | plain => ⟨0, 0⟩
  | _ => ⟨0, 8⟩

/-- The bits of the fourth byte that a layout of four bytes reads, given the width of the row and whether it is a
segment that is extended. -/
def Layout.fourthByte (width : Nat) (segment : Bool) : Layout → BitRange
  | shortImm => if width = 1 then ⟨0, 0⟩ else ⟨0, 8⟩
  | bitJump => ⟨4, 8⟩
  | extensionImmediate => if segment then ⟨0, 0⟩ else ⟨0, 2⟩
  | _ => ⟨0, 8⟩

/-- The windows agree on the bits that a layout reads behind the opcode. -/
structure Layout.SameFields (layout : Layout) (entry : OpcodeEntry) (i : Instruction) (w v : Window) : Prop where
  second : w.SameBits v 1 layout.secondByte.low layout.secondByte.high
  third : 2 < layout.size → w.SameBits v 2 0 8
  fourth : 2 < layout.size → w.SameBits v 3 (layout.fourthByte entry.width (i.mnemonic ∈ segmentExtensions)).low
    (layout.fourthByte entry.width (i.mnemonic ∈ segmentExtensions)).high

section Layouts

variable {entry : OpcodeEntry} {layout : Layout} {w v : Window} {i : Instruction}

theorem Layout.SameFields.ofTwo (hsize : layout.size = 2)
    (h : w.SameBits v 1 layout.secondByte.low layout.secondByte.high) : layout.SameFields entry i w v where
  second := h
  third hlong := by omega
  fourth hlong := by omega

theorem Layout.SameFields.ofWord (hrange : layout.fourthByte entry.width (i.mnemonic ∈ segmentExtensions) = ⟨0, 8⟩)
    (h : w.SameBits v 1 layout.secondByte.low layout.secondByte.high) {word : Fin 65536} (hw : w.word 2 = .ok word)
    (hv : v.word 2 = .ok word) : layout.SameFields entry i w v := by
  obtain ⟨hthird, hfourth⟩ := Window.word_same hw hv
  refine ⟨h, fun _ => hthird, fun _ => ?_⟩
  rw [hrange]
  exact hfourth

/-- The operands are all that an instruction of a row shows of its bytes. -/
theorem OpcodeEntry.special_inj {mnemonic mnemonic' : String} {cond cond' : Option Condition}
    {binds binds' : List (Slot × Operand)} {display display' : List Slot}
    (hw : entry.special w mnemonic cond binds display = .ok i)
    (hv : entry.special v mnemonic' cond' binds' display' = .ok i) : cond = cond' ∧ binds = binds' := by
  obtain ⟨-, rfl⟩ := special_eq_ok.1 hw
  obtain ⟨-, hsame⟩ := special_eq_ok.1 hv
  injection hsame with _ _ _ _ hbinds _ _ hcond
  exact ⟨hcond.symm, hbinds.symm⟩

theorem OpcodeEntry.binary_inj {dst dst' src src' : Operand} (hw : entry.binary w dst src = .ok i)
    (hv : entry.binary v dst' src' = .ok i) : dst = dst' ∧ src = src' := by
  have hbinds := (special_inj hw hv).2
  simpa using hbinds

theorem OpcodeEntry.extension_inj {ext ext' : Extension} {values values' : List (Slot × Operand)}
    (hw : entry.extension w ext values = .ok i) (hv : entry.extension v ext' values' = .ok i) : ext = ext' := by
  have hbinds := (special_inj hw hv).2
  injection hbinds with hhead
  injection hhead with _ hext
  injection hext

/-! ### Layouts with a choice -/

/-- What a low nibble stands for where it holds a pointer, a stepped pointer or a three-bit immediate. -/
inductive PointerNibble (width : Nat) : Nat → Operand → Prop
  | plain (index : Fin 4) : PointerNibble width (8 + index.val) (.ofPointer (index.castLE (by decide)) .plain width)
  | stepped (index : Fin 4) :
      PointerNibble width (12 + index.val) (.ofPointer (index.castLE (by decide)) .postInc width)
  | data (value : Fin 8) : PointerNibble width value.val (.ofSmall value (by decide) width)

theorem PointerNibble.unique {width n m : Nat} {op : Operand} (hn : PointerNibble width n op)
    (hm : PointerNibble width m op) : n = m := by
  generalize hop : op = other at hm
  cases hn with
  | plain index =>
    cases hm with
    | plain index' =>
      have hindex := congrArg Fin.val (Operand.ofPointer_inj.1 hop).1
      exact congrArg (8 + ·) hindex
    | stepped index' => cases (Operand.ofPointer_inj.1 hop).2
    | data value => cases hop
  | stepped index =>
    cases hm with
    | plain index' => cases (Operand.ofPointer_inj.1 hop).2
    | stepped index' =>
      have hindex := congrArg Fin.val (Operand.ofPointer_inj.1 hop).1
      exact congrArg (12 + ·) hindex
    | data value => cases hop
  | data value =>
    cases hm with
    | plain index' | stepped index' => cases hop
    | data value' => rw [Operand.ofSmall_inj.1 hop]

theorem Layout.regPointer_eq_ok (h : regPointer.decode entry w = .ok i) :
    ∃ dst low src, w.nibbleHigh 1 = .ok dst ∧ w.nibbleLow 1 = .ok low ∧ PointerNibble entry.width low.val src ∧
      entry.binary w (.ofNibble dst entry.width) src = .ok i := by
  simp only [decode, bind_ok_iff] at h
  obtain ⟨dst, hdst, selector, hselector, index, hindex, data, hdata, h⟩ := h
  obtain ⟨b, hb, rfl⟩ := map_ok_iff.1 hselector
  have hpointer : index.val = b.val % 4 := by
    obtain ⟨c, hc, rfl⟩ := map_ok_iff.1 hindex
    rw [Except.ok.inj (hb.symm.trans hc)]
  have hvalue : data.val = b.val % 8 := by
    obtain ⟨c, hc, rfl⟩ := map_ok_iff.1 hdata
    rw [Except.ok.inj (hb.symm.trans hc)]
  have hlow : w.nibbleLow 1 = .ok ⟨b.val % 16, by omega⟩ := map_ok_iff.2 ⟨b, hb, rfl⟩
  refine ⟨dst, _, _, hdst, hlow, ?_, h⟩
  simp only [Fin.ext_iff]
  split
  · next hplain =>
    have hnibble : b.val % 16 = 8 + index.val := by
      have htwo : b.val / 4 % 4 = 2 := hplain
      omega
    rw [hnibble]
    exact .plain index
  · next hplain =>
    split
    · next hstepped =>
      have hnibble : b.val % 16 = 12 + index.val := by
        have hthree : b.val / 4 % 4 = 3 := hstepped
        omega
      rw [hnibble]
      exact .stepped index
    · next hstepped =>
      have hnibble : b.val % 16 = data.val := by
        have htwo : b.val / 4 % 4 ≠ 2 := hplain
        have hthree : b.val / 4 % 4 ≠ 3 := hstepped
        omega
      rw [hnibble]
      exact .data data

theorem Layout.regPointer_same (hw : regPointer.decode entry w = .ok i) (hv : regPointer.decode entry v = .ok i) :
    w.SameBits v 1 0 8 := by
  obtain ⟨dst, low, src, hdst, hlow, hsrc, hw⟩ := regPointer_eq_ok hw
  obtain ⟨dst', low', src', hdst', hlow', hsrc', hv⟩ := regPointer_eq_ok hv
  obtain ⟨hd, rfl⟩ := OpcodeEntry.binary_inj hw hv
  obtain rfl := Operand.ofNibble_inj.1 hd
  obtain rfl : low = low' := Fin.ext (hsrc.unique hsrc')
  exact .nibbles hdst hdst' hlow hlow'

theorem Layout.shortImm_same (hw : shortImm.decode entry w = .ok i) (hv : shortImm.decode entry v = .ok i) :
    shortImm.SameFields entry i w v := by
  have hrange (segment : Bool) : shortImm.fourthByte entry.width segment = if entry.width = 1 then ⟨0, 0⟩ else ⟨0, 8⟩ :=
    rfl
  unfold decode at hw hv
  by_cases hwidth : entry.width = 1
  · simp only [hwidth, if_true, bind_ok_iff, map_ok_iff] at hw hv
    obtain ⟨_, ⟨data, hdata, rfl⟩, code, hcode, hw⟩ := hw
    obtain ⟨_, ⟨data', hdata', rfl⟩, code', hcode', hv⟩ := hv
    have hoperands := OpcodeEntry.binary_inj hw hv
    simp only [Operand.short.injEq, Operand.ofSmall_inj, and_true] at hoperands
    obtain ⟨rfl, rfl⟩ := hoperands
    -- a byte immediate is followed by a byte that nothing reads
    refine ⟨.byte hcode hcode', fun _ => .byte hdata hdata', fun _ => ?_⟩
    rw [hrange, if_pos hwidth]
    exact .empty 3
  · simp only [hwidth, if_false, bind_ok_iff, map_ok_iff] at hw hv
    obtain ⟨_, ⟨data, hdata, rfl⟩, code, hcode, hw⟩ := hw
    obtain ⟨_, ⟨data', hdata', rfl⟩, code', hcode', hv⟩ := hv
    have hoperands := OpcodeEntry.binary_inj hw hv
    simp only [Operand.short.injEq, Operand.imm.injEq, and_true] at hoperands
    obtain ⟨rfl, rfl⟩ := hoperands
    exact .ofWord ((hrange _).trans (if_neg hwidth)) (.byte hcode hcode') hdata hdata'

theorem Layout.pointerBranch_eq_ok (h : pointerBranch.decode entry w = .ok i) :
    ∃ field base, w.nibbleHigh 1 = .ok field ∧ w.nibbleLow 1 = .ok base ∧ Condition.ofNibble field = .uc ∧
      entry.special w entry.mnemonic (some .uc) [(.base, .ofPointer base .plain 2)] [.cond, .base] = .ok i := by
  simp only [decode, bind_ok_iff] at h
  obtain ⟨field, hfield, base, hbase, h⟩ := h
  split at h
  · next htrivial => exact ⟨field, base, hfield, hbase, htrivial, h⟩
  · cases h

theorem Layout.pointerBranch_same (hw : pointerBranch.decode entry w = .ok i)
    (hv : pointerBranch.decode entry v = .ok i) : w.SameBits v 1 0 8 := by
  obtain ⟨field, base, hfield, hbase, htrivial, hw⟩ := pointerBranch_eq_ok hw
  obtain ⟨field', base', hfield', hbase', htrivial', hv⟩ := pointerBranch_eq_ok hv
  have hoperands := (OpcodeEntry.special_inj hw hv).2
  simp only [List.cons.injEq, Prod.mk.injEq, Operand.ofPointer_inj, and_true, true_and] at hoperands
  subst hoperands
  obtain rfl := Condition.ofNibble_inj (htrivial.trans htrivial'.symm)
  exact .nibbles hfield hfield' hbase hbase'

/-- A protected instruction leaves no choice for the bytes behind its opcode. -/
theorem Layout.protectedOpcode_eq_ok (h : protectedOpcode.decode entry w = .ok i) :
    ∃ inverted repeated, inverted.val = 255 - entry.opcode ∧ repeated.val = entry.opcode ∧ w.byte 1 = .ok inverted ∧
      w.byte 2 = .ok repeated ∧ w.byte 3 = .ok repeated := by
  simp only [decode, bind_ok_iff] at h
  obtain ⟨inverted, hinverted, second, hsecond, third, hthird, h⟩ := h
  split at h
  · next hform =>
    obtain ⟨hfirst, hnext, hlast⟩ := hform
    obtain rfl : second = third := Fin.ext (hnext.trans hlast.symm)
    exact ⟨inverted, second, hfirst, hnext, hinverted, hsecond, hthird⟩
  · cases h

theorem Layout.protectedOpcode_same (hw : protectedOpcode.decode entry w = .ok i)
    (hv : protectedOpcode.decode entry v = .ok i) : protectedOpcode.SameFields entry i w v := by
  obtain ⟨inverted, repeated, hform, hform2, hsecond, hthird, hfourth⟩ := protectedOpcode_eq_ok hw
  obtain ⟨inverted', repeated', hform', hform2', hsecond', hthird', hfourth'⟩ := protectedOpcode_eq_ok hv
  obtain rfl : inverted = inverted' := Fin.ext (hform.trans hform'.symm)
  obtain rfl : repeated = repeated' := Fin.ext (hform2.trans hform2'.symm)
  exact ⟨.byte hsecond hsecond', fun _ => .byte hthird hthird', fun _ => .byte hfourth hfourth'⟩

theorem Layout.extensionShort_eq_ok (h : extensionShort.decode entry w = .ok i) :
    ∃ selector count kind, w.extensionSelector = .ok selector ∧ w.extensionCount = .ok count ∧
      (selector.val = 0 ∧ kind = .atomic ∨ selector.val = 2 ∧ kind = .extr) ∧
      entry.extension w ⟨kind, count, none, none⟩ [] = .ok i := by
  simp only [decode, bind_ok_iff] at h
  obtain ⟨selector, hselector, count, hcount, h⟩ := h
  split at h
  · next hatomic => exact ⟨selector, count, _, hselector, hcount, .inl ⟨hatomic, rfl⟩, h⟩
  · next hbank => exact ⟨selector, count, _, hselector, hcount, .inr ⟨hbank, rfl⟩, h⟩
  · cases h

theorem Layout.extensionShort_same (hw : extensionShort.decode entry w = .ok i)
    (hv : extensionShort.decode entry v = .ok i) : w.SameBits v 1 4 8 := by
  obtain ⟨selector, count, kind, hselector, hcount, hkind, hw⟩ := extensionShort_eq_ok hw
  obtain ⟨selector', count', kind', hselector', hcount', hkind', hv⟩ := extensionShort_eq_ok hv
  have hext := OpcodeEntry.extension_inj hw hv
  simp only [Extension.mk.injEq, Int.ofNat_inj, and_true] at hext
  obtain ⟨rfl, rfl⟩ := hext
  have hsame : selector = selector' := by
    apply Fin.ext
    rcases hkind with ⟨hzero, rfl⟩ | ⟨htwo, rfl⟩
    · rcases hkind' with ⟨hzero', -⟩ | ⟨-, ⟨⟩⟩
      rw [hzero, hzero']
    · rcases hkind' with ⟨-, ⟨⟩⟩ | ⟨htwo', -⟩
      rw [htwo, htwo']
  subst hsame
  exact .extension hcount hcount' hselector hselector'

theorem Layout.extensionImmediate_eq_ok (h : extensionImmediate.decode entry w = .ok i) :
    ∃ selector low value count, w.extensionSelector = .ok selector ∧ w.byte 2 = .ok low ∧
      w.extensionCount = .ok count ∧
      entry.extension w ⟨extensionOfSelector selector, count, some (value : Nat), none⟩ [(.value, .ofNat value 2)]
        = .ok i ∧
      ((extensionOfSelector selector).hasSegment = true → value = low.val) ∧
      (¬(extensionOfSelector selector).hasSegment = true →
        ∃ high, w.byte 3 = .ok high ∧ value = low.val + 256 * (high.val % 4)) := by
  simp only [decode, bind_ok_iff] at h
  obtain ⟨selector, hselector, low, hlow, h⟩ := h
  split at h
  · next hsegment =>
    simp only [bind_ok_iff] at h
    obtain ⟨_, ⟨⟩, count, hcount, h⟩ := h
    exact ⟨selector, low, _, count, hselector, hlow, hcount, h, fun _ => rfl, fun hpage => absurd hsegment hpage⟩
  · next hpage =>
    simp only [bind_ok_iff, map_ok_iff] at h
    obtain ⟨_, ⟨high, hhigh, rfl⟩, count, hcount, h⟩ := h
    exact ⟨selector, low, _, count, hselector, hlow, hcount, h, fun hsegment => absurd hsegment hpage,
      fun _ => ⟨high, hhigh, rfl⟩⟩

/-- The mnemonic tells which bits of the fourth byte are read. -/
theorem Layout.fourthByte_extension {selector : Fin 4} {ext : Extension} {values : List (Slot × Operand)}
    (hkind : ext.kind = extensionOfSelector selector) (h : entry.extension w ext values = .ok i) :
    extensionImmediate.fourthByte entry.width (i.mnemonic ∈ segmentExtensions) =
      if (extensionOfSelector selector).hasSegment then ⟨0, 0⟩ else ⟨0, 2⟩ := by
  obtain ⟨-, rfl⟩ := OpcodeEntry.special_eq_ok.1 h
  simp only [fourthByte, OpcodeEntry.filled, hkind, decide_eq_true_eq, extensionOfSelector_segment]

theorem Layout.extensionImmediate_same (hw : extensionImmediate.decode entry w = .ok i)
    (hv : extensionImmediate.decode entry v = .ok i) : extensionImmediate.SameFields entry i w v := by
  obtain ⟨selector, low, value, count, hselector, hlow, hcount, hw, hsegment, hpage⟩ := extensionImmediate_eq_ok hw
  obtain ⟨selector', low', value', count', hselector', hlow', hcount', hv, hsegment', hpage'⟩ :=
    extensionImmediate_eq_ok hv
  have hext := OpcodeEntry.extension_inj hw hv
  simp only [Extension.mk.injEq, Option.some.injEq, Int.ofNat_inj, and_true] at hext
  obtain ⟨hkind, rfl, rfl⟩ := hext
  obtain rfl := extensionOfSelector_inj hkind
  have hsecond : w.SameBits v 1 4 8 := .extension hcount hcount' hselector hselector'
  have hrange := fourthByte_extension rfl hw
  by_cases hkind : (extensionOfSelector selector).hasSegment = true
  · obtain rfl : low = low' := Fin.ext ((hsegment hkind).symm.trans (hsegment' hkind))
    refine ⟨hsecond, fun _ => .byte hlow hlow', fun _ => ?_⟩
    rw [hrange, if_pos hkind]
    exact .empty 3
  · obtain ⟨high, hhigh, hvalue⟩ := hpage hkind
    obtain ⟨high', hhigh', hvalue'⟩ := hpage' hkind
    obtain rfl : low = low' := Fin.ext (by omega)
    refine ⟨hsecond, fun _ => .byte hlow hlow', fun _ => ?_⟩
    rw [hrange, if_neg hkind]
    have hfield : high'.val % 4 = high.val % 4 := by omega
    refine (Window.pageHigh_eq_iff low.val (Window.lt_of_byte hhigh)).1 ?_
    rw [hhigh, hhigh']
    exact congrArg (fun n => Except.ok (low.val + 256 * n)) hfield

theorem Layout.extensionRegister_same (hw : extensionRegister.decode entry w = .ok i)
    (hv : extensionRegister.decode entry v = .ok i) : w.SameBits v 1 0 8 := by
  simp only [decode, bind_ok_iff] at hw hv
  obtain ⟨selector, hselector, field, hfield, count, hcount, hw⟩ := hw
  obtain ⟨selector', hselector', field', hfield', count', hcount', hv⟩ := hv
  have hext := OpcodeEntry.extension_inj hw hv
  simp only [Extension.mk.injEq, Option.some.injEq, Int.ofNat_inj, true_and] at hext
  obtain ⟨hkind, rfl, hregister⟩ := hext
  obtain rfl := extensionOfSelector_inj hkind
  obtain rfl := Register.wordAt_inj hregister
  have hlow : w.SameBits v 1 0 4 := .nibbleLow hfield hfield'
  exact hlow.join (.extension hcount hcount' hselector hselector')

/-! ### Bits and branches -/

theorem Layout.bitPair_same (hw : bitPair.decode entry w = .ok i) (hv : bitPair.decode entry v = .ok i) :
    bitPair.SameFields entry i w v := by
  simp only [decode, bind_ok_iff] at hw hv
  obtain ⟨dst, hdst, dstPos, hdstPos, src, hsrc, srcPos, hsrcPos, hw⟩ := hw
  obtain ⟨dst', hdst', dstPos', hdstPos', src', hsrc', srcPos', hsrcPos', hv⟩ := hv
  have hoperands := OpcodeEntry.binary_inj hw hv
  simp only [Operand.bit_inj] at hoperands
  obtain ⟨⟨rfl, rfl⟩, rfl, rfl⟩ := hoperands
  have hlow : w.SameBits v 3 0 4 := .nibbleLow hdstPos hdstPos'
  exact ⟨.byte hsrc hsrc', fun _ => .byte hdst hdst', fun _ => hlow.join (.nibbleHigh hsrcPos hsrcPos')⟩

theorem Layout.bitField_same {dataFirst : Bool} (hw : (bitField dataFirst).decode entry w = .ok i)
    (hv : (bitField dataFirst).decode entry v = .ok i) : (bitField dataFirst).SameFields entry i w v := by
  simp only [decode, bind_ok_iff] at hw hv
  obtain ⟨first, hfirst, second, hsecond, offset, hoffset, hw⟩ := hw
  obtain ⟨first', hfirst', second', hsecond', offset', hoffset', hv⟩ := hv
  have hoperands := (OpcodeEntry.special_inj hw hv).2
  simp only [List.cons.injEq, Prod.mk.injEq, Operand.bitWord.injEq, Operand.ofSmall_inj, and_true, true_and,
    Int.ofNat_inj, Fin.val_inj] at hoperands
  obtain ⟨rfl, hmask, hdata⟩ := hoperands
  have hbytes : first = first' ∧ second = second' := by
    cases dataFirst
    · exact ⟨hmask, hdata⟩
    · exact ⟨hdata, hmask⟩
  obtain ⟨rfl, rfl⟩ := hbytes
  exact ⟨.byte hoffset hoffset', fun _ => .byte hfirst hfirst', fun _ => .byte hsecond hsecond'⟩

section Branches

variable (hpc : v.pc = w.pc)

include hpc

theorem Layout.bitJump_same (hw : bitJump.decode entry w = .ok i) (hv : bitJump.decode entry v = .ok i) :
    bitJump.SameFields entry i w v := by
  simp only [decode, bind_ok_iff] at hw hv
  obtain ⟨offset, hoffset, pos, hpos, d, hd, hw⟩ := hw
  obtain ⟨offset', hoffset', pos', hpos', d', hd', hv⟩ := hv
  have hoperands := (OpcodeEntry.special_inj hw hv).2
  simp only [List.cons.injEq, Prod.mk.injEq, Operand.bit_inj, Operand.target.injEq, and_true, true_and, hpc]
    at hoperands
  obtain ⟨⟨rfl, rfl⟩, htarget⟩ := hoperands
  exact ⟨.byte hoffset hoffset', fun _ => .relativeTarget hd hd' htarget, fun _ => .nibbleHigh hpos hpos'⟩

theorem Layout.absolute_same (hw : absolute.decode entry w = .ok i) (hv : absolute.decode entry v = .ok i) :
    absolute.SameFields entry i w v := by
  simp only [decode, bind_ok_iff] at hw hv
  obtain ⟨field, hfield, offset, hoffset, hw⟩ := hw
  obtain ⟨field', hfield', offset', hoffset', hv⟩ := hv
  obtain ⟨hcond, hoperands⟩ := OpcodeEntry.special_inj hw hv
  simp only [List.cons.injEq, Prod.mk.injEq, Operand.target.injEq, and_true, true_and, hpc] at hoperands
  obtain rfl : offset = offset' := Fin.ext (by omega)
  obtain rfl := Condition.ofNibble_inj (Option.some.inj hcond)
  exact .ofWord rfl (.nibbleHigh hfield hfield') hoffset hoffset'

theorem Layout.conditionalRelative_same (hw : conditionalRelative.decode entry w = .ok i)
    (hv : conditionalRelative.decode entry v = .ok i) : w.SameBits v 1 0 8 := by
  simp only [decode, bind_ok_iff] at hw hv
  obtain ⟨cond, -, d, hd, hw⟩ := hw
  obtain ⟨cond', -, d', hd', hv⟩ := hv
  have hoperands := (OpcodeEntry.special_inj hw hv).2
  simp only [List.cons.injEq, Prod.mk.injEq, Operand.target.injEq, and_true, true_and, hpc] at hoperands
  exact .relativeTarget hd hd' hoperands

theorem Layout.relative_same (hw : relative.decode entry w = .ok i) (hv : relative.decode entry v = .ok i) :
    w.SameBits v 1 0 8 := by
  simp only [decode, bind_ok_iff] at hw hv
  obtain ⟨d, hd, hw⟩ := hw
  obtain ⟨d', hd', hv⟩ := hv
  have hoperands := (OpcodeEntry.special_inj hw hv).2
  simp only [List.cons.injEq, Prod.mk.injEq, Operand.target.injEq, and_true, true_and, hpc] at hoperands
  exact .relativeTarget hd hd' hoperands

end Branches

theorem Layout.segmented_same (hw : segmented.decode entry w = .ok i) (hv : segmented.decode entry v = .ok i) :
    segmented.SameFields entry i w v := by
  simp only [decode, bind_ok_iff] at hw hv
  obtain ⟨segment, hsegment, offset, hoffset, hw⟩ := hw
  obtain ⟨segment', hsegment', offset', hoffset', hv⟩ := hv
  have hoperands := (OpcodeEntry.special_inj hw hv).2
  simp only [List.cons.injEq, Prod.mk.injEq, Operand.ofSmall_inj, Operand.target.injEq, and_true, true_and]
    at hoperands
  obtain ⟨rfl, htarget⟩ := hoperands
  obtain rfl : offset = offset' := Fin.ext (by omega)
  exact .ofWord rfl (.byte hsegment hsegment') hoffset hoffset'

/-! ### All layouts -/

/-- Windows that give the same instruction agree on every bit that the layout reads. -/
theorem Layout.sameFields_of_decode (hpc : v.pc = w.pc) (hw : layout.decode entry w = .ok i)
    (hv : layout.decode entry v = .ok i) : layout.SameFields entry i w v := by
  cases layout
  case regPointer => exact .ofTwo rfl (regPointer_same hw hv)
  case shortImm => exact shortImm_same hw hv
  case pointerBranch => exact .ofTwo rfl (pointerBranch_same hw hv)
  case protectedOpcode => exact protectedOpcode_same hw hv
  case extensionShort => exact .ofTwo rfl (extensionShort_same hw hv)
  case extensionImmediate => exact extensionImmediate_same hw hv
  case extensionRegister => exact .ofTwo rfl (extensionRegister_same hw hv)
  case bitPair => exact bitPair_same hw hv
  case bitField => exact bitField_same hw hv
  case bitJump => exact bitJump_same hpc hw hv
  case absolute => exact absolute_same hpc hw hv
  case conditionalRelative => exact .ofTwo rfl (conditionalRelative_same hpc hw hv)
  case relative => exact .ofTwo rfl (relative_same hpc hw hv)
  case segmented => exact segmented_same hw hv
  case plain => exact .ofTwo rfl (.empty 1)
  -- the others read their fields one after the other, and each field is an operand or part of one
  all_goals simp only [Layout.decode, bind_ok_iff] at hw hv
  case pushAndCall =>
    obtain ⟨_, -, hw⟩ := hw
    cases hw
  case regReg | load | transfer =>
    obtain ⟨dst, hdst, src, hsrc, hw⟩ := hw
    obtain ⟨dst', hdst', src', hsrc', hv⟩ := hv
    have hoperands := OpcodeEntry.binary_inj hw hv
    simp only [Operand.ofNibble_inj, Operand.ofPointer_inj, and_true] at hoperands
    obtain ⟨rfl, rfl⟩ := hoperands
    exact .ofTwo rfl (.nibbles hdst hdst' hsrc hsrc')
  case regImm4 | shiftCount | save | wordByte =>
    obtain ⟨dst, hdst, src, hsrc, hw⟩ := hw
    obtain ⟨dst', hdst', src', hsrc', hv⟩ := hv
    have hoperands := OpcodeEntry.binary_inj hw hv
    simp only [Operand.ofNibble_inj, Operand.ofPointer_inj, Operand.ofSmall_inj, and_true] at hoperands
    obtain ⟨rfl, rfl⟩ := hoperands
    exact .ofTwo rfl (.nibbles hsrc hsrc' hdst hdst')
  case shortWord | shortMem | shortMemByte =>
    obtain ⟨code, hcode, word, hword, hw⟩ := hw
    obtain ⟨code', hcode', word', hword', hv⟩ := hv
    have hoperands := OpcodeEntry.binary_inj hw hv
    simp only [Operand.short.injEq, Operand.imm.injEq, Operand.mem.injEq, and_true] at hoperands
    obtain ⟨rfl, rfl⟩ := hoperands
    exact .ofWord rfl (.byte hcode hcode') hword hword'
  case memShort | memShortByte =>
    obtain ⟨word, hword, code, hcode, hw⟩ := hw
    obtain ⟨word', hword', code', hcode', hv⟩ := hv
    have hoperands := OpcodeEntry.binary_inj hw hv
    simp only [Operand.short.injEq, Operand.mem.injEq, and_true] at hoperands
    obtain ⟨rfl, rfl⟩ := hoperands
    exact .ofWord rfl (.byte hcode hcode') hword hword'
  case regMem | regWord | pointerMem =>
    obtain ⟨dst, hdst, word, hword, hw⟩ := hw
    obtain ⟨dst', hdst', word', hword', hv⟩ := hv
    have hoperands := OpcodeEntry.binary_inj hw hv
    simp only [Operand.ofNibble_inj, Operand.ofPointer_inj, Operand.imm.injEq, Operand.mem.injEq, and_true] at hoperands
    obtain ⟨rfl, rfl⟩ := hoperands
    exact .ofWord rfl (.nibbleLow hdst hdst') hword hword'
  case memPointer =>
    obtain ⟨word, hword, src, hsrc, hw⟩ := hw
    obtain ⟨word', hword', src', hsrc', hv⟩ := hv
    have hoperands := OpcodeEntry.binary_inj hw hv
    simp only [Operand.ofPointer_inj, Operand.mem.injEq, and_true] at hoperands
    obtain ⟨rfl, rfl⟩ := hoperands
    exact .ofWord rfl (.nibbleLow hsrc hsrc') hword hword'
  case loadDisp =>
    obtain ⟨dst, hdst, src, hsrc, disp, hdisp, hw⟩ := hw
    obtain ⟨dst', hdst', src', hsrc', disp', hdisp', hv⟩ := hv
    have hoperands := OpcodeEntry.binary_inj hw hv
    simp only [Operand.ofNibble_inj, Operand.ofDisplaced_inj] at hoperands
    obtain ⟨rfl, rfl, rfl⟩ := hoperands
    exact .ofWord rfl (.nibbles hdst hdst' hsrc hsrc') hdisp hdisp'
  case saveDisp =>
    obtain ⟨dst, hdst, disp, hdisp, src, hsrc, hw⟩ := hw
    obtain ⟨dst', hdst', disp', hdisp', src', hsrc', hv⟩ := hv
    have hoperands := OpcodeEntry.binary_inj hw hv
    simp only [Operand.ofNibble_inj, Operand.ofDisplaced_inj] at hoperands
    obtain ⟨⟨rfl, rfl⟩, rfl⟩ := hoperands
    exact .ofWord rfl (.nibbles hsrc hsrc' hdst hdst') hdisp hdisp'
  case dstReg | srcReg =>
    obtain ⟨field, hfield, hw⟩ := hw
    obtain ⟨field', hfield', hv⟩ := hv
    have hoperands := (OpcodeEntry.special_inj hw hv).2
    simp only [List.cons.injEq, Prod.mk.injEq, Operand.ofNibble_inj, and_true, true_and] at hoperands
    subst hoperands
    exact .ofTwo rfl (.nibbleHigh hfield hfield')
  case bit =>
    obtain ⟨offset, hoffset, pos, -, hw⟩ := hw
    obtain ⟨offset', hoffset', pos', -, hv⟩ := hv
    have hoperands := (OpcodeEntry.special_inj hw hv).2
    simp only [List.cons.injEq, Prod.mk.injEq, Operand.bit_inj, and_true, true_and] at hoperands
    obtain ⟨rfl, -⟩ := hoperands
    exact .ofTwo rfl (.byte hoffset hoffset')
  case short =>
    obtain ⟨code, hcode, hw⟩ := hw
    obtain ⟨code', hcode', hv⟩ := hv
    have hoperands := (OpcodeEntry.special_inj hw hv).2
    simp only [List.cons.injEq, Prod.mk.injEq, Operand.short.injEq, and_true, true_and] at hoperands
    subst hoperands
    exact .ofTwo rfl (.byte hcode hcode')
  case trap =>
    obtain ⟨number, hnumber, hw⟩ := hw
    obtain ⟨number', hnumber', hv⟩ := hv
    have hoperands := (OpcodeEntry.special_inj hw hv).2
    simp only [List.cons.injEq, Prod.mk.injEq, Operand.ofSmall_inj, and_true, true_and] at hoperands
    obtain ⟨rfl, -⟩ := hoperands
    exact .ofTwo rfl (.trap hnumber hnumber')

/-- The fields that a layout reads are all that its instruction depends on. -/
theorem Layout.decode_of_sameFields (hsize : entry.length = layout.size) (hlen : layout.size ≤ w.bytes.length)
    (hlen' : layout.size ≤ v.bytes.length) (hpc : v.pc = w.pc) (hfirst : v.byte 0 = w.byte 0)
    (hw : layout.decode entry w = .ok i) (hsame : layout.SameFields entry i w v) : layout.decode entry v = .ok i := by
  have hrequire : v.require entry.length = w.require entry.length := by
    rw [Window.require, Window.require, hsize, if_pos hlen, if_pos hlen']
  obtain ⟨hsecond, hthird, hfourth⟩ := hsame
  rw [← hw]
  cases layout
  all_goals
    simp only [Layout.size] at hlen hthird hfourth
    simp only [Layout.decode, OpcodeEntry.binary, OpcodeEntry.instruction, OpcodeEntry.extension, OpcodeEntry.special,
      hrequire, hpc]
  case regReg | regPointer | regImm4 | shiftCount | bit | conditionalRelative | pointerBranch | relative | short | load
      | save | transfer | wordByte | extensionRegister =>
    have hbyte : v.byte 1 = w.byte 1 := (Window.byte_eq_iff hlen).2 hsecond
    simp only [Window.nibbleHigh, Window.nibbleLow, Window.short, Window.data4, Window.data3, Window.pointerIndex,
      Window.pointerSelector, Window.bitPosition, Window.rel8, Window.extensionCount, Window.extensionSelector, hbyte,
      hfirst]
  case dstReg | srcReg => rw [(Window.nibbleHigh_eq_iff hlen).2 hsecond]
  case trap => rw [(Window.trap7_eq_iff hlen).2 hsecond]
  case extensionShort =>
    rw [(Window.extensionSelector_eq_iff hlen).2 (hsecond.mono (by decide) (by decide)),
      (Window.extensionCount_eq_iff hlen).2 (hsecond.mono (by decide) (by decide))]
  case shortWord | shortMem | memShort | bitPair | bitField | segmented | protectedOpcode | loadDisp | saveDisp
      | shortMemByte | memShortByte =>
    have hbyte : v.byte 1 = w.byte 1 := (Window.byte_eq_iff (by omega)).2 hsecond
    have hbyte2 : v.byte 2 = w.byte 2 := (Window.byte_eq_iff (by omega)).2 (hthird (by decide))
    have hbyte3 : v.byte 3 = w.byte 3 := (Window.byte_eq_iff (by omega)).2 (hfourth (by decide))
    have hword : v.word 2 = w.word 2 := (Window.word_eq_iff hlen).2 ⟨hthird (by decide), hfourth (by decide)⟩
    simp only [Window.nibbleHigh, Window.nibbleLow, Window.short, Window.data16, Window.mem, Window.caddr, hbyte,
      hbyte2, hbyte3, hword]
  case regMem | regWord | pointerMem | memPointer =>
    have hword : v.word 2 = w.word 2 := (Window.word_eq_iff hlen).2 ⟨hthird (by decide), hfourth (by decide)⟩
    simp only [Window.data16, Window.mem, hword, (Window.nibbleLow_eq_iff (by omega)).2 hsecond]
  case absolute =>
    have hword : v.word 2 = w.word 2 := (Window.word_eq_iff hlen).2 ⟨hthird (by decide), hfourth (by decide)⟩
    simp only [Window.caddr, hword, (Window.nibbleHigh_eq_iff (by omega)).2 hsecond]
  case bitJump =>
    have hbyte : v.byte 1 = w.byte 1 := (Window.byte_eq_iff (by omega)).2 hsecond
    have hbyte2 : v.byte 2 = w.byte 2 := (Window.byte_eq_iff (by omega)).2 (hthird (by decide))
    have hpos : v.nibbleHigh 3 = w.nibbleHigh 3 := (Window.nibbleHigh_eq_iff hlen).2 (hfourth (by decide))
    simp only [Window.short, Window.branchBitPosition, Window.rel8, hbyte, hbyte2, hpos]
  case shortImm =>
    have hbyte : v.byte 1 = w.byte 1 := (Window.byte_eq_iff (by omega)).2 hsecond
    have hbyte2 : v.byte 2 = w.byte 2 := (Window.byte_eq_iff (by omega)).2 (hthird (by decide))
    by_cases hwidth : entry.width = 1
    · simp only [hwidth, if_true, Window.data8, Window.short, hbyte, hbyte2]
    · have hrange := hfourth (by decide)
      rw [fourthByte, if_neg hwidth] at hrange
      have hword : v.word 2 = w.word 2 := (Window.word_eq_iff hlen).2 ⟨hthird (by decide), hrange⟩
      simp only [hwidth, if_false, Window.data16, Window.short, hbyte, hword]
  case extensionImmediate =>
    obtain ⟨selector, low, value, count, hselector, hlow, hcount, hi, -⟩ := extensionImmediate_eq_ok hw
    rw [fourthByte_extension rfl hi] at hfourth
    have hselector' := (Window.extensionSelector_eq_iff (by omega)).2 (hsecond.mono (by decide) (by decide))
    have hcount' := (Window.extensionCount_eq_iff (by omega)).2 (hsecond.mono (by decide) (by decide))
    have hlow' := (Window.byte_eq_iff (by omega)).2 (hthird (by decide))
    simp only [hselector', hcount', hlow', hselector, hlow, ok_bind]
    by_cases hsegment : (extensionOfSelector selector).hasSegment = true
    · rw [if_pos hsegment, if_pos hsegment]
    · have hrange := hfourth (by decide)
      rw [if_neg hsegment] at hrange
      rw [if_neg hsegment, if_neg hsegment, (Window.pageHigh_eq_iff low.val hlen).2 hrange]

end Layouts

end Lift166
