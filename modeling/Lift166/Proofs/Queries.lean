import Lift166.Surface
import Lift166.Proofs.ControlFlow

/-!
# The three queries of a host

A host asks for the flow of an address, for its line and for its lifted form, each time with the bytes it has. The
queries decode on their own, so that their answers could differ. They do not: on bytes, either all three stay silent
or all three answer, and then about the same instruction and with the same length.
-/

namespace Lift166

/-- Bytes as a host passes them. -/
def byteValues (bytes : List UInt8) : List Int :=
  bytes.map fun byte => (byte.toNat : Int)

theorem bytesOfInts?_byteValues (bytes : List UInt8) : bytesOfInts? (byteValues bytes) = some bytes := by
  induction bytes with
  | nil => rfl
  | cons byte rest ih =>
    have hbyte : (0 : Int) ≤ byte.toNat ∧ (byte.toNat : Int) < 256 := by
      have hlt := byte.toNat_lt
      omega
    rw [byteValues, List.map_cons, bytesOfInts?, if_pos hbyte, ← byteValues, ih, Option.map_some, Int.toNat_natCast,
      UInt8.ofNat_toNat]

theorem instructionBytes_byteValues (bytes : List UInt8) :
    instructionBytes (byteValues bytes) = .ok (bytes.take 4) := by
  have htake : (byteValues bytes).take 4 = byteValues (bytes.take 4) := (List.map_take ..).symm
  rw [instructionBytes, htake, bytesOfInts?_byteValues]

theorem decode_take (bytes : List UInt8) (addr : Int) : decode (bytes.take 4) addr = decode bytes addr := by
  rw [decode, List.take_take, Nat.min_self, decode]

namespace Lifter

/-- None of the three queries has an answer, and none of them changes the store. -/
structure Silent (l : Lifter) (s : Store) (data : List Int) (addr : Int) : Prop where
  info : (l.info s data addr).answer = .ok none ∧ (l.info s data addr).store = s
  text : (l.text s data addr).answer = .ok none ∧ (l.text s data addr).store = s
  lift : (l.liftAt s data addr).answer = .ok none ∧ (l.liftAt s data addr).store = s

/-- All three queries answer, for the given instruction and with its length. -/
structure Reports (l : Lifter) (s : Store) (data : List Int) (addr : Int) (i : Instruction) : Prop where
  info : ∃ flow, Flow.ofInstruction i addr = .ok flow ∧
    (l.info s data addr).answer = .ok (some ⟨i.length, flow⟩)
  text : ∃ tokens, render s i addr = .ok tokens ∧ (l.text s data addr).answer = .ok (some ⟨i.length, tokens⟩)
  lift : ∃ code, (l.lift s i addr).answer = .ok ⟨i.length, code⟩ ∧
    (l.liftAt s data addr).answer = .ok (some ⟨i.length, code⟩)

section Bytes

variable {bytes : List UInt8} {addr : Int}

theorem withDecoded_ok {α : Type} {i : Instruction} (h : decode bytes addr = .ok i) (l : Lifter) (s : Store)
    (next : Instruction → Outcome QueryError α) :
    l.withDecoded s (byteValues bytes) addr next = ⟨(next i).answer.map some, (next i).store, (next i).events⟩ := by
  simp only [withDecoded, decodeAt, instructionBytes_byteValues, decode_take, h, List.nil_append]

theorem withDecoded_error {α : Type} {e : DecodeError} (h : decode bytes addr = .error e) (l : Lifter) (s : Store)
    (next : Instruction → Outcome QueryError α) :
    l.withDecoded s (byteValues bytes) addr next = ⟨.ok none, s, [.undecodable l.variant.name addr e]⟩ := by
  simp only [withDecoded, decodeAt, instructionBytes_byteValues, decode_take, h]

theorem silent_of_decode {e : DecodeError} (h : decode bytes addr = .error e) (l : Lifter) (s : Store) :
    l.Silent s (byteValues bytes) addr := by
  constructor
  · rw [info, withDecoded_error h]
    exact ⟨rfl, rfl⟩
  · rw [text, line, withDecoded_error h]
    exact ⟨rfl, rfl⟩
  · rw [liftAt, withDecoded_error h]
    exact ⟨rfl, rfl⟩

theorem reports_of_decode {i : Instruction} (h : decode bytes addr = .ok i) (l : Lifter) (s : Store) :
    l.Reports s (byteValues bytes) addr i := by
  obtain ⟨code, hcode, hemits⟩ := lift_emits h l s
  obtain ⟨flow, hflow, -⟩ := hemits.flow_fits rfl
  obtain ⟨tokens, htokens⟩ := render_ok h s
  refine ⟨⟨flow, hflow, ?_⟩, ⟨tokens, htokens, ?_⟩, ⟨code, hcode, ?_⟩⟩
  · rw [info, withDecoded_ok h]
    simp only [hflow]
    rfl
  · rw [text, line, withDecoded_ok h]
    simp only [htokens]
    rfl
  · rw [liftAt, withDecoded_ok h]
    simp only [hcode]
    rfl

end Bytes

/-- **The three queries agree and never fail.** For any bytes at any address, under any store and for any variant,
either none of them answers, or each answers for the same instruction: two or four bytes long, as the table says for
its first byte, and no longer than what was passed. -/
theorem queries_agree (bytes : List UInt8) (addr : Int) :
    ((∃ e, decode bytes addr = .error e) ∧ ∀ l s, Silent l s (byteValues bytes) addr) ∨
      ∃ i length, decode bytes addr = .ok i ∧ (∀ l s, Reports l s (byteValues bytes) addr i) ∧
        i.length = (length : Nat) ∧ (length = 2 ∨ length = 4) ∧ length ≤ bytes.length ∧
        ∃ first, bytes.head? = some first ∧ instructionLength first.toNat = .ok length := by
  cases hdecode : decode bytes addr with
  | error e => exact .inl ⟨⟨e, rfl⟩, silent_of_decode hdecode⟩
  | ok i =>
    obtain ⟨first, rest, entry, rfl, hentry, hlength, hfits⟩ := decode_row hdecode
    have hmem : entry ∈ opcodeTable := List.mem_of_find?_eq_some hentry
    refine .inr ⟨i, entry.length, rfl, reports_of_decode hdecode, hlength, opcodeTable_length entry hmem, hfits, first,
      rfl, ?_⟩
    have hfirst : (0 : Int) ≤ first.toNat := Int.natCast_nonneg _
    rw [instructionLength, if_pos hfirst, Int.toNat_natCast, hentry]

end Lifter

end Lift166
