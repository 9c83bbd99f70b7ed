import Lift166.Proofs.Step

/-!
# The bytes of an encoding

The fields of a layout lie in the two or four bytes that its rows are long, so decoding reads no byte beyond the length
of the row, and the first field that is missing is missing within it. Bytes that are all there are decoded, but for the
few forms that `OpcodeEntry.Refuses` lists.
-/

namespace Lift166

/-! ## Where fields lie -/

/-- The number of bytes in which the fields of a layout lie. -/
def Layout.size : Layout → Nat
  | regReg | regPointer | regImm4 | dstReg | srcReg | shiftCount | bit | conditionalRelative | pointerBranch | relative
  | plain | short | trap | load _ | save _ | transfer .. | wordByte | extensionShort | extensionRegister => 2
  | shortImm | shortWord | shortMem | memShort | regMem | regWord | bitPair | bitField _ | bitJump | absolute | segmented
  | pushAndCall | protectedOpcode | loadDisp | saveDisp | pointerMem | memPointer | shortMemByte | memShortByte
  | extensionImmediate => 4

/-- A row is as long as its layout needs. -/
theorem opcodeTable_size : ∀ entry ∈ opcodeTable, entry.length = entry.layout.size := by
  decide +kernel

namespace Window

/-- The windows are at the same address, and no field in their first bytes tells them apart. -/
structure Agree (w v : Window) (size : Nat) : Prop where
  pc : w.pc = v.pc
  byte : ∀ index < size, w.byte index = v.byte index
  word : ∀ index, index + 1 < size → w.word index = v.word index
  require : w.require size = v.require size

variable {w v : Window} {size : Nat}

theorem getElem?_of_take (htake : w.bytes.take size = v.bytes.take size) {index : Nat} (h : index < size) :
    w.bytes[index]? = v.bytes[index]? := by
  rw [← List.getElem?_take_of_lt h, htake, List.getElem?_take_of_lt h]

theorem agree_of_take (hpc : w.pc = v.pc) (hw : size ≤ w.bytes.length) (hv : size ≤ v.bytes.length)
    (htake : w.bytes.take size = v.bytes.take size) : w.Agree v size where
  pc := hpc
  byte index hindex := by
    have hfound : v.bytes[index]? = some v.bytes[index] := List.getElem?_eq_getElem (by omega)
    rw [byte, byte, getElem?_of_take htake hindex, hfound]
  word index hindex := by
    have hlow : v.bytes[index]? = some v.bytes[index] := List.getElem?_eq_getElem (by omega)
    have hhigh : v.bytes[index + 1]? = some v.bytes[index + 1] := List.getElem?_eq_getElem (by omega)
    rw [word, word, getElem?_of_take htake hindex, getElem?_of_take htake (Nat.lt_of_succ_lt hindex), hlow, hhigh]
  require := by rw [require, require, if_pos hw, if_pos hv]

theorem byte_eq_ok {index : Nat} {value : Fin 256} (h : w.byte index = .ok value) :
    ∃ byte, w.bytes[index]? = some byte ∧ byte.toFin = value := by
  unfold byte at h
  split at h
  · next found hfound => exact ⟨found, hfound, Except.ok.inj h⟩
  · cases h

theorem byte_of_getElem? {index : Nat} {byte : UInt8} (h : w.bytes[index]? = some byte) :
    w.byte index = .ok byte.toFin := by
  rw [Window.byte, h]

end Window

/-- A layout reads no further than its size. -/
theorem Layout.decode_congr {entry : OpcodeEntry} {layout : Layout} {w v : Window} (hsize : entry.length = layout.size)
    (h : w.Agree v layout.size) : layout.decode entry w = layout.decode entry v := by
  obtain ⟨hpc, hbyte, hword, hrequire⟩ := h
  rw [← hsize] at hrequire
  cases layout
  all_goals
    -- with the size known, every field that the layout reads is the same in both windows
    simp only [Layout.size] at hbyte hword
    simp only [Layout.decode, OpcodeEntry.binary, OpcodeEntry.instruction, OpcodeEntry.extension, OpcodeEntry.special,
      Window.nibbleHigh, Window.nibbleLow, Window.short, Window.mem, Window.data16, Window.caddr, Window.data8,
      Window.data4, Window.data3, Window.pointerIndex, Window.pointerSelector, Window.bitPosition,
      Window.branchBitPosition, Window.rel8, Window.extensionCount, Window.extensionSelector, Window.trap7, hpc,
      hrequire, hbyte, hword, Nat.reduceLT, Nat.reduceAdd]

/-! ## Forms that are not decoded -/

/-- The mnemonics of the protected instructions, whose opcode is repeated in the bytes after it. -/
def protectedMnemonics : List String := ["srst", "idle", "pwrdn", "srvwdt", "diswdt", "einit"]

/-- The forms of known instructions that are not decoded, with the reason. -/
inductive OpcodeEntry.Refuses (entry : OpcodeEntry) (bytes : List UInt8) : Unsupported → Prop
  | pushAndCall (mnemonic : entry.mnemonic = "pcall") : Refuses entry bytes .pushAndCall
  /-- An indirect branch has its condition in the high nibble, and zero is the trivial one. -/
  | conditional {second : UInt8} {cond : Condition} (mnemonic : entry.mnemonic = "jmpi" ∨ entry.mnemonic = "calli")
      (found : bytes[1]? = some second) (field : second.toNat / 16 = cond.number) (tested : second.toNat / 16 ≠ 0) :
      Refuses entry bytes (.conditionalIndirect cond)
  | reserved {second : UInt8} (opcode : entry.opcode = 0xD1) (found : bytes[1]? = some second)
      (selector : second.toNat / 64 = 1 ∨ second.toNat / 64 = 3) :
      Refuses entry bytes (.reservedSubOperation (second.toNat / 64))
  | malformed (mnemonic : entry.mnemonic ∈ protectedMnemonics)
      (differ : ((bytes.drop 1).take 3).map UInt8.toNat ≠ [entry.opcode ^^^ 0xFF, entry.opcode, entry.opcode]) :
      Refuses entry bytes .malformedProtection

/-- The layouts that refuse some of their forms belong to these instructions. -/
theorem opcodeTable_refusing : ∀ entry ∈ opcodeTable,
    (entry.layout = .pushAndCall ↔ entry.mnemonic = "pcall") ∧
    (entry.layout = .pointerBranch ↔ entry.mnemonic = "jmpi" ∨ entry.mnemonic = "calli") ∧
    (entry.layout = .extensionShort ↔ entry.opcode = 0xD1) ∧
    (entry.layout = .protectedOpcode ↔ entry.mnemonic ∈ protectedMnemonics) := by
  decide +kernel

/-- An opcode is a byte, so that its complement is taken bit by bit. -/
theorem opcodeTable_complement : ∀ entry ∈ opcodeTable, entry.opcode ^^^ 0xFF = 255 - entry.opcode := by
  decide +kernel

/-- Four bytes decide whether a form is refused. -/
theorem OpcodeEntry.Refuses.congr {entry : OpcodeEntry} {bytes other : List UInt8} {cause : Unsupported}
    (hsame : bytes.take 4 = other.take 4) (h : entry.Refuses bytes cause) : entry.Refuses other cause := by
  have hsecond : bytes[1]? = other[1]? := by
    have hat : (bytes.take 4)[1]? = (other.take 4)[1]? := by rw [hsame]
    rwa [List.getElem?_take_of_lt (by decide), List.getElem?_take_of_lt (by decide)] at hat
  have hrest : (bytes.drop 1).take 3 = (other.drop 1).take 3 := by
    have hdrop := congrArg (List.drop 1) hsame
    rwa [List.drop_take, List.drop_take] at hdrop
  cases h with
  | pushAndCall mnemonic => exact .pushAndCall mnemonic
  | conditional mnemonic found field tested => exact .conditional mnemonic (hsecond ▸ found) field tested
  | reserved opcode found selector => exact .reserved opcode (hsecond ▸ found) selector
  | malformed mnemonic differ => exact .malformed mnemonic (hrest ▸ differ)

theorem OpcodeEntry.refuses_take {entry : OpcodeEntry} {bytes : List UInt8} {cause : Unsupported} :
    entry.Refuses (bytes.take 4) cause ↔ entry.Refuses bytes cause := by
  have hsame : (bytes.take 4).take 4 = bytes.take 4 := by rw [List.take_take, Nat.min_self]
  exact ⟨.congr hsame, .congr hsame.symm⟩

theorem Condition.ofNibble_number (nibble : Fin 16) : (ofNibble nibble).number = nibble.val := by
  revert nibble
  decide

theorem highNibble_lt (byte : UInt8) : byte.toNat / 16 < 16 := by
  have hlt := byte.toNat_lt
  omega

theorem Condition.number_inj {cond other : Condition} (h : cond.number = other.number) : cond = other := by
  revert h
  cases cond <;> cases other <;> decide

/-! ## Failures -/

/-- Why a row is not decoded: a field within its length is missing, or all of it is there and this form is refused. -/
inductive OpcodeEntry.Fails (entry : OpcodeEntry) (w : Window) : DecodeError → Prop
  | missing {need : Nat} (short : w.bytes.length < need) (le : need ≤ entry.length) :
      Fails entry w (.tooShort need w.bytes.length)
  | refused {name : String} {cause : Unsupported} (complete : entry.length ≤ w.bytes.length)
      (refuses : entry.Refuses w.bytes cause) : Fails entry w (.unsupported name w.pc cause)

/-- If the computation fails, then with an error of this sort. -/
def FailsOnly {α : Type} (P : DecodeError → Prop) (answer : Except DecodeError α) : Prop :=
  ∀ e, answer = .error e → P e

namespace FailsOnly

variable {α β : Type} {P : DecodeError → Prop} {first : Except DecodeError α}

theorem ok (value : α) : FailsOnly P (.ok value) := by
  intro e h
  cases h

theorem bind {next : α → Except DecodeError β} (hfirst : FailsOnly P first)
    (hnext : ∀ value, first = .ok value → FailsOnly P (next value)) : FailsOnly P (first >>= next) := by
  intro e h
  cases hanswer : first with
  | error e' =>
    rw [hanswer] at h
    cases h
    exact hfirst _ hanswer
  | ok value =>
    rw [hanswer] at h
    exact hnext value hanswer e h

theorem map (f : α → β) (hfirst : FailsOnly P first) : FailsOnly P (first.map f) := by
  intro e h
  cases hanswer : first with
  | error e' =>
    rw [hanswer] at h
    cases h
    exact hfirst _ hanswer
  | ok value =>
    rw [hanswer] at h
    cases h

end FailsOnly

section Rows

variable {entry : OpcodeEntry} {w : Window}

theorem byte_fails {index : Nat} (h : index < entry.length) : FailsOnly (entry.Fails w) (w.byte index) := by
  intro e he
  unfold Window.byte at he
  split at he
  · cases he
  · next hmissing =>
    cases he
    exact .missing (Nat.lt_succ_of_le (List.getElem?_eq_none_iff.1 hmissing)) h

theorem word_fails {index : Nat} (h : index + 1 < entry.length) : FailsOnly (entry.Fails w) (w.word index) := by
  intro e he
  unfold Window.word at he
  split at he
  · cases he
  · next hmissing =>
    cases he
    refine .missing (Nat.lt_of_not_le fun hlen => ?_) h
    exact hmissing _ _ (List.getElem?_eq_getElem (by omega)) (List.getElem?_eq_getElem (by omega))

theorem require_fails : FailsOnly (entry.Fails w) (w.require entry.length) := by
  intro e he
  unfold Window.require at he
  split at he
  · cases he
  · next hlen =>
    cases he
    exact .missing (Nat.lt_of_not_le hlen) (Nat.le_refl _)

theorem special_fails {mnemonic : String} {cond : Option Condition} {binds : List (Slot × Operand)}
    {display : List Slot} : FailsOnly (entry.Fails w) (entry.special w mnemonic cond binds display) :=
  .bind require_fails fun _ _ => .ok _

theorem pointerBranch_fails (hlength : entry.length = 2)
    (hmnemonic : entry.mnemonic = "jmpi" ∨ entry.mnemonic = "calli") :
    FailsOnly (entry.Fails w) (Layout.pointerBranch.decode entry w) := by
  have hbyte : FailsOnly (entry.Fails w) (w.byte 1) := byte_fails (by omega)
  refine .bind (.map _ hbyte) fun field hfield => .bind (.map _ hbyte) fun base _ => ?_
  split
  · exact special_fails
  · next cond hcond =>
    intro e he
    cases he
    obtain ⟨value, hvalue, rfl⟩ := map_ok_iff.1 hfield
    obtain ⟨second, hsecond, rfl⟩ := Window.byte_eq_ok hvalue
    have hlen : 1 < w.bytes.length := (List.getElem?_eq_some_iff.1 hsecond).1
    have hnumber := Condition.ofNibble_number ⟨_, highNibble_lt second⟩
    refine .refused (by omega) (.conditional hmnemonic hsecond hnumber.symm ?_)
    intro htrivial
    exact hcond (Condition.number_inj (hnumber.trans htrivial))

theorem pushAndCall_fails (hmnemonic : entry.mnemonic = "pcall") :
    FailsOnly (entry.Fails w) (Layout.pushAndCall.decode entry w) := by
  refine .bind require_fails fun _ hlen => ?_
  intro e he
  cases he
  unfold Window.require at hlen
  split at hlen
  · next hcomplete => exact .refused hcomplete (.pushAndCall hmnemonic)
  · cases hlen

theorem extensionShort_fails (hlength : entry.length = 2) (hopcode : entry.opcode = 0xD1) :
    FailsOnly (entry.Fails w) (Layout.extensionShort.decode entry w) := by
  have hbyte : FailsOnly (entry.Fails w) (w.byte 1) := byte_fails (by omega)
  refine .bind (.map _ hbyte) fun selector hselector => .bind (.map _ hbyte) fun count _ => ?_
  split
  · exact special_fails
  · exact special_fails
  · next hatomic hbank =>
    intro e he
    cases he
    obtain ⟨value, hvalue, rfl⟩ := map_ok_iff.1 hselector
    obtain ⟨second, hsecond, rfl⟩ := Window.byte_eq_ok hvalue
    have hlen : 1 < w.bytes.length := (List.getElem?_eq_some_iff.1 hsecond).1
    have hlt := second.toNat_lt
    have hreserved : second.toNat / 64 = 1 ∨ second.toNat / 64 = 3 := by
      have h0 : second.toNat / 64 ≠ 0 := hatomic
      have h2 : second.toNat / 64 ≠ 2 := hbank
      omega
    exact .refused (by omega) (.reserved hopcode hsecond hreserved)

/-- The three bytes that repeat a protected opcode. -/
theorem take_protection {bytes : List UInt8} {a b c : UInt8} (ha : bytes[1]? = some a) (hb : bytes[2]? = some b)
    (hc : bytes[3]? = some c) : (bytes.drop 1).take 3 = [a, b, c] := by
  rcases bytes with _ | ⟨_, _ | ⟨_, _ | ⟨_, _ | ⟨_, _⟩⟩⟩⟩ <;> simp_all

theorem protectedOpcode_fails (hlength : entry.length = 4) (hmnemonic : entry.mnemonic ∈ protectedMnemonics)
    (hcomplement : entry.opcode ^^^ 0xFF = 255 - entry.opcode) :
    FailsOnly (entry.Fails w) (Layout.protectedOpcode.decode entry w) := by
  refine .bind (byte_fails (by omega)) fun inverted hinverted => .bind (byte_fails (by omega)) fun second hsecond =>
    .bind (byte_fails (by omega)) fun third hthird => ?_
  split
  · exact special_fails
  · next hdiffer =>
    intro e he
    cases he
    obtain ⟨inverted, hfirst, rfl⟩ := Window.byte_eq_ok hinverted
    obtain ⟨second, hnext, rfl⟩ := Window.byte_eq_ok hsecond
    obtain ⟨third, hlast, rfl⟩ := Window.byte_eq_ok hthird
    have hlen : 3 < w.bytes.length := (List.getElem?_eq_some_iff.1 hlast).1
    refine .refused (by omega) (.malformed hmnemonic ?_)
    rw [take_protection hfirst hnext hlast, hcomplement]
    intro hsame
    simp only [List.map_cons, List.map_nil, List.cons.injEq, and_true] at hsame
    exact hdiffer hsame

/-- Whatever the bytes are, a row that is not decoded fails in one of these ways. -/
theorem OpcodeEntry.layout_fails (hmem : entry ∈ opcodeTable) :
    FailsOnly (entry.Fails w) (entry.layout.decode entry w) := by
  have hsize := opcodeTable_size entry hmem
  have hcomplement := opcodeTable_complement entry hmem
  obtain ⟨hcall, hbranch, hshort, hprotected⟩ := opcodeTable_refusing entry hmem
  cases hlayout : entry.layout
  all_goals
    rw [hlayout] at hsize
    simp only [Layout.size] at hsize
  case pushAndCall => exact pushAndCall_fails (hcall.1 hlayout)
  case pointerBranch => exact pointerBranch_fails hsize (hbranch.1 hlayout)
  case extensionShort => exact extensionShort_fails hsize (hshort.1 hlayout)
  case protectedOpcode => exact protectedOpcode_fails hsize (hprotected.1 hlayout) hcomplement
  -- the other layouts throw nothing of their own: each field is a byte or a word within the length of the row
  all_goals
    simp only [Layout.decode]
    repeat' first
      | exact special_fails
      | exact byte_fails (by omega)
      | exact word_fails (by omega)
      | exact .ok _
      | refine .bind ?_ fun _ _ => ?_
      | refine .map _ ?_
      | split

/-- A refused form is refused for its reason, once all its bytes are there. -/
theorem OpcodeEntry.decode_of_refuses (hmem : entry ∈ opcodeTable) (hcomplete : entry.length ≤ w.bytes.length)
    {cause : Unsupported} (h : entry.Refuses w.bytes cause) :
    ∃ name, entry.layout.decode entry w = .error (.unsupported name w.pc cause) := by
  have hsize := opcodeTable_size entry hmem
  obtain ⟨hcall, hbranch, hshort, hprotected⟩ := opcodeTable_refusing entry hmem
  cases h with
  | pushAndCall mnemonic =>
    rw [hcall.2 mnemonic, Layout.decode, Window.require, if_pos hcomplete]
    exact ⟨_, rfl⟩
  | @conditional second cond mnemonic found field tested =>
    have hcond : Condition.ofNibble ⟨_, highNibble_lt second⟩ = cond :=
      Condition.number_inj ((Condition.ofNibble_number _).trans field)
    refine ⟨entry.mnemonic, ?_⟩
    rw [hbranch.2 mnemonic]
    simp only [Layout.decode, Window.nibbleHigh, Window.nibbleLow, Window.byte_of_getElem? found, Except.map, bind,
      Except.bind]
    split
    · next htrivial => exact absurd (field.trans (congrArg Condition.number (hcond.symm.trans htrivial))) tested
    · rw [← hcond]
      rfl
  | @reserved second opcode found selector =>
    refine ⟨"atomic/extr", ?_⟩
    rw [hshort.2 opcode]
    simp only [Layout.decode, Window.extensionSelector, Window.extensionCount, Window.byte_of_getElem? found, Except.map,
      bind, Except.bind]
    split
    · next hatomic =>
      have h0 : second.toNat / 64 = 0 := hatomic
      omega
    · next hbank =>
      have h2 : second.toNat / 64 = 2 := hbank
      omega
    · rfl
  | malformed mnemonic differ =>
    have hcomplement := opcodeTable_complement entry hmem
    have hlayout := hprotected.2 mnemonic
    have hlength : entry.length = 4 := by rw [hsize, hlayout]; rfl
    have hfirst : w.bytes[1]? = some w.bytes[1] := List.getElem?_eq_getElem (by omega)
    have hnext : w.bytes[2]? = some w.bytes[2] := List.getElem?_eq_getElem (by omega)
    have hlast : w.bytes[3]? = some w.bytes[3] := List.getElem?_eq_getElem (by omega)
    rw [take_protection hfirst hnext hlast, hcomplement] at differ
    simp only [List.map_cons, List.map_nil, ne_eq, List.cons.injEq, and_true] at differ
    refine ⟨entry.mnemonic, ?_⟩
    rw [hlayout]
    simp only [Layout.decode, Window.byte_of_getElem? hfirst, Window.byte_of_getElem? hnext,
      Window.byte_of_getElem? hlast]
    exact if_neg differ

end Rows

/-! ## Decoding -/

section Decoding

variable {bytes : List UInt8} {first : UInt8} {entry : OpcodeEntry}

theorem decode_nil (addr : Int) : decode [] addr = .error (.tooShort 1 0) :=
  rfl

theorem decode_unknown (hfirst : bytes.head? = some first) (hrow : opcodeEntry? first.toNat = none) (addr : Int) :
    decode bytes addr = .error (.unknownOpcode first.toNat (some addr)) := by
  obtain ⟨rest, rfl⟩ := List.head?_eq_some_iff.1 hfirst
  have hopcode : (⟨addr, (first :: rest).take 4⟩ : Window).opcode = .ok first.toFin := rfl
  have hfound : opcodeEntry? first.toFin.val = none := hrow
  simp only [decode, hopcode, ok_bind, hfound]
  rfl

/-- The first byte finds the row, and the layout of the row does the rest. -/
theorem decode_eq_layout (hfirst : bytes.head? = some first) (hrow : opcodeEntry? first.toNat = some entry)
    (addr : Int) : decode bytes addr = entry.layout.decode entry ⟨addr, bytes.take 4⟩ := by
  obtain ⟨rest, rfl⟩ := List.head?_eq_some_iff.1 hfirst
  have hopcode : (⟨addr, (first :: rest).take 4⟩ : Window).opcode = .ok first.toFin := rfl
  have hfound : opcodeEntry? first.toFin.val = some entry := hrow
  simp only [decode, hopcode, ok_bind, hfound]

theorem mem_opcodeTable (hrow : opcodeEntry? first.toNat = some entry) : entry ∈ opcodeTable :=
  List.mem_of_find?_eq_some hrow

/-- Every error is one that the row accounts for, and is about the bytes that were given. -/
theorem fails_of_decode (hfirst : bytes.head? = some first) (hrow : opcodeEntry? first.toNat = some entry) {addr : Int}
    {e : DecodeError} (h : decode bytes addr = .error e) : entry.Fails ⟨addr, bytes.take 4⟩ e := by
  rw [decode_eq_layout hfirst hrow] at h
  exact OpcodeEntry.layout_fails (mem_opcodeTable hrow) e h

/-- What is decoded is as long as the row says, and was there. -/
theorem complete_of_row (hfirst : bytes.head? = some first) (hrow : opcodeEntry? first.toNat = some entry) {addr : Int}
    {i : Instruction} (h : decode bytes addr = .ok i) : i.length = entry.length ∧ entry.length ≤ bytes.length := by
  obtain ⟨first', rest, entry', rfl, hrow', hlength, hcomplete⟩ := decode_row h
  cases hfirst
  cases hrow.symm.trans hrow'
  exact ⟨hlength, hcomplete⟩

theorem decode_truncated (hfirst : bytes.head? = some first) (hrow : opcodeEntry? first.toNat = some entry)
    (hshort : bytes.length < entry.length) (addr : Int) :
    ∃ need, decode bytes addr = .error (.tooShort need bytes.length) ∧ bytes.length < need ∧ need ≤ entry.length := by
  have hlength := opcodeTable_length entry (mem_opcodeTable hrow)
  have htake : bytes.take 4 = bytes := List.take_of_length_le (by omega)
  cases hdecode : decode bytes addr with
  | ok i =>
    have hcomplete := (complete_of_row hfirst hrow hdecode).2
    omega
  | error e =>
    have hfails := fails_of_decode hfirst hrow hdecode
    rw [htake] at hfails
    cases hfails with
    | missing short le => exact ⟨_, rfl, short, le⟩
    | refused complete => exact absurd complete (Nat.not_le_of_lt hshort)

section Complete

variable (hfirst : bytes.head? = some first) (hrow : opcodeEntry? first.toNat = some entry)
  (hcomplete : entry.length ≤ bytes.length) (addr : Int)

include hfirst hrow hcomplete

theorem decode_eq_of_take {other : List UInt8} (htake : other.take entry.length = bytes.take entry.length) :
    decode other addr = decode bytes addr := by
  have hlength := opcodeTable_length entry (mem_opcodeTable hrow)
  have hsize := opcodeTable_size entry (mem_opcodeTable hrow)
  have hother : other.head? = some first := by
    have hhead := congrArg List.head? htake
    rwa [List.head?_take, List.head?_take, if_neg (by omega), if_neg (by omega), hfirst] at hhead
  have hcount := congrArg List.length htake
  rw [List.length_take, List.length_take] at hcount
  rw [decode_eq_layout hother hrow, decode_eq_layout hfirst hrow]
  refine Layout.decode_congr hsize (hsize ▸ Window.agree_of_take rfl ?_ ?_ ?_)
  · rw [List.length_take]
    omega
  · rw [List.length_take]
    omega
  · rw [List.take_take, List.take_take, Nat.min_eq_left (by omega), htake]

theorem decode_unsupported_iff (cause : Unsupported) :
    (∃ name, decode bytes addr = .error (.unsupported name addr cause)) ↔ entry.Refuses bytes cause := by
  have hlength := opcodeTable_length entry (mem_opcodeTable hrow)
  constructor
  · rintro ⟨name, hdecode⟩
    cases fails_of_decode hfirst hrow hdecode with
    | refused _ refuses => exact OpcodeEntry.refuses_take.1 refuses
  · intro hrefuses
    rw [decode_eq_layout hfirst hrow]
    refine OpcodeEntry.decode_of_refuses (mem_opcodeTable hrow) ?_ (OpcodeEntry.refuses_take.2 hrefuses)
    rw [List.length_take]
    omega

theorem decode_ok_iff :
    (∃ i, decode bytes addr = .ok i ∧ i.length = entry.length) ↔ ∀ cause, ¬entry.Refuses bytes cause := by
  constructor
  · rintro ⟨i, hdecode, -⟩ cause hrefuses
    obtain ⟨name, herror⟩ := (decode_unsupported_iff hfirst hrow hcomplete addr cause).2 hrefuses
    rw [hdecode] at herror
    cases herror
  · intro hrefuses
    cases hdecode : decode bytes addr with
    | ok i => exact ⟨i, rfl, (complete_of_row hfirst hrow hdecode).1⟩
    | error e =>
      have hlength := opcodeTable_length entry (mem_opcodeTable hrow)
      cases fails_of_decode hfirst hrow hdecode with
      | missing short le =>
        simp only [List.length_take] at short
        omega
      | refused _ refuses => exact absurd (OpcodeEntry.refuses_take.1 refuses) (hrefuses _)

end Complete

/-- **The decoder accepts exactly its encodings, and reads only its own bytes.** Without a byte, or with fewer than the
row of the first byte is long, it asks for more, and for no more than that length. A first byte without a row is
unknown whatever follows. When all bytes of the row are there, the answer depends on them alone: it is a refusal just
for the forms that the row refuses, and an instruction of that length otherwise. -/
theorem decode_accepts_exactly_its_encodings (bytes : List UInt8) (addr : Int) :
    (bytes = [] → ∃ need, decode bytes addr = .error (.tooShort need 0)) ∧
    (∀ first, bytes.head? = some first → opcodeEntry? first.toNat = none →
      decode bytes addr = .error (.unknownOpcode first.toNat (some addr))) ∧
    ∀ first entry, bytes.head? = some first → opcodeEntry? first.toNat = some entry →
      (bytes.length < entry.length →
        ∃ need, decode bytes addr = .error (.tooShort need bytes.length) ∧ bytes.length < need ∧ need ≤ entry.length) ∧
      (entry.length ≤ bytes.length →
        (∀ other, other.take entry.length = bytes.take entry.length → decode other addr = decode bytes addr) ∧
        (∀ cause, (∃ name, decode bytes addr = .error (.unsupported name addr cause)) ↔ entry.Refuses bytes cause) ∧
        ((∃ i, decode bytes addr = .ok i ∧ i.length = entry.length) ↔ ∀ cause, ¬entry.Refuses bytes cause)) := by
  refine ⟨?_, fun first hfirst hrow => decode_unknown hfirst hrow addr, fun first entry hfirst hrow => ⟨?_, ?_⟩⟩
  · rintro rfl
    exact ⟨1, decode_nil addr⟩
  · intro hshort
    exact decode_truncated hfirst hrow hshort addr
  · intro hcomplete
    exact ⟨fun other => decode_eq_of_take hfirst hrow hcomplete addr,
      decode_unsupported_iff hfirst hrow hcomplete addr, decode_ok_iff hfirst hrow hcomplete addr⟩

/-- No bytes, a byte that is no opcode, a short extension that is cut off, and one with a reserved selector. -/
theorem decode_accepts_exactly_its_encodings_shortExtension :
    (∃ need, decode [] (-5) = .error (.tooShort need 0)) ∧
    decode [0x8B, 0x40] (-5) = .error (.unknownOpcode 0x8B (some (-5))) ∧
    (∃ need, decode [0xD1] (-5) = .error (.tooShort need 1) ∧ 1 < need ∧ need ≤ 2) ∧
    ∃ name, decode [0xD1, 0x40, 0xFF] (-5) = .error (.unsupported name (-5) (.reservedSubOperation 1)) := by
  have hunknown : opcodeEntry? (0x8B : UInt8).toNat = none := by decide +kernel
  have hrow : opcodeEntry? (0xD1 : UInt8).toNat = some (.usual 0xD1 "atomic" .ext .extensionShort none) := by
    decide +kernel
  obtain ⟨hnone, -, -⟩ := decode_accepts_exactly_its_encodings [] (-5)
  obtain ⟨-, hfirst, -⟩ := decode_accepts_exactly_its_encodings [0x8B, 0x40] (-5)
  obtain ⟨-, -, hcut⟩ := decode_accepts_exactly_its_encodings [0xD1] (-5)
  obtain ⟨-, -, hwhole⟩ := decode_accepts_exactly_its_encodings [0xD1, 0x40, 0xFF] (-5)
  refine ⟨hnone rfl, hfirst _ rfl hunknown, (hcut _ _ rfl hrow).1 (by decide), ?_⟩
  obtain ⟨-, hrefused, -⟩ := (hwhole _ _ rfl hrow).2 (by decide)
  exact (hrefused _).2 (@OpcodeEntry.Refuses.reserved _ _ 0x40 rfl rfl (.inl rfl))

end Decoding

end Lift166
