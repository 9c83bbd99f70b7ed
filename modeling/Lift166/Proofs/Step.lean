import Lift166.Proofs.Complete
import Lift166.Proofs.Locality

/-!
# Lifting one instruction

Lifting a decoded instruction always succeeds, and of the store it changes at most the entry at the next address.
What stands there afterwards is a function of the entries at the two addresses, `Instruction.leaves`: an extension
puts its overrides on the next entry, and any other instruction carries a running override there. `lift_decoded`
says so once, and nothing after it opens `Lifter.lift` again.
-/

namespace Lift166

open Il

/-! ## Stores by their look-ups -/

/-- Stores with equal look-ups and equal default pointers are equal. -/
theorem Store.ext_get? {s t : Store} (htable : ∀ addr, s.table.get? addr = t.table.get? addr)
    (hpointers : s.defaultDpp = t.defaultDpp) : s = t := by
  obtain ⟨table, pointers⟩ := s
  obtain ⟨table', pointers'⟩ := t
  have h : table = table' := AddressMap.ext htable
  subst h
  cases hpointers
  rfl

theorem Store.get?_put (s : Store) (addr other : Int) (entry : Override) :
    (s.put addr entry).table.get? other = if other = addr then some entry else s.table.get? other :=
  AddressMap.get?_insert s.table addr other entry

/-! ## What is left at the next address -/

/-- The count of further instructions that an extension places. -/
def Extension.span (ext : Extension) : Fin 256 :=
  byteOf (ext.count - 1).toNat

/-- An entry with an override placed on it, whether or not there was one before. -/
def placedOn (span : Fin 256) (entry : Option Override) (overlay : Overlay) : Option Override :=
  some ((entry.getD .none).overlay span overlay)

/-- The entry that lifting an instruction leaves at the next address, given the entries at its own and at the next
address before. -/
def Instruction.leaves (i : Instruction) (here next : Option Override) : Option Override :=
  match i.family with
  | .ext =>
    match i.operand? .ext with
    | some (.extension ext) =>
      match ext.register with
      | none => ext.overlays.foldl (placedOn ext.span) next
      | some _ => next
    | _ => next
  | _ =>
    match here with
    | some current => if runs : current.runsOn = true then some (current.carriedTo (next.getD .none) runs) else next
    | none => next

theorem Instruction.leaves_plain {i : Instruction} (hext : i.family ≠ .ext) (here next : Option Override) :
    i.leaves here next =
      match here with
      | some current => if runs : current.runsOn = true then some (current.carriedTo (next.getD .none) runs) else next
      | none => next := by
  unfold leaves
  split
  · next h => exact absurd h hext
  · rfl

theorem Instruction.leaves_extension {i : Instruction} {ext : Extension} (hext : i.family = .ext)
    (hoperand : i.operand? .ext = some (.extension ext)) (hreg : ext.register = none) (here next : Option Override) :
    i.leaves here next = ext.overlays.foldl (placedOn ext.span) next := by
  simp only [leaves, hext, hoperand, hreg]

theorem Instruction.leaves_register {i : Instruction} {ext : Extension} {r : Register} (hext : i.family = .ext)
    (hoperand : i.operand? .ext = some (.extension ext)) (hreg : ext.register = some r)
    (here next : Option Override) : i.leaves here next = next := by
  simp only [leaves, hext, hoperand, hreg]

/-- What an instruction that is no extension leaves, with an absent entry read as an empty one. -/
theorem Instruction.leaves_plain_getD {i : Instruction} (hext : i.family ≠ .ext) (here next : Option Override) :
    (i.leaves here next).getD .none =
      if runs : (here.getD .none).runsOn = true then (here.getD .none).carriedTo (next.getD .none) runs
      else next.getD .none := by
  rw [leaves_plain hext]
  cases here with
  | none => rfl
  | some current =>
    by_cases hruns : current.runsOn = true
    · simp only [Option.getD_some, dif_pos hruns]
    · simp only [Option.getD_some, dif_neg hruns]

/-! ## Placing and carrying -/

/-- The two stores differ at one address only, where the second holds the given entry. -/
structure Store.ChangedAt (s t : Store) (addr : Int) (entry : Option Override) : Prop where
  /-- What stands at the address. -/
  changed : t.table.get? addr = entry
  /-- Everything else stands as before. -/
  kept : ∀ other, other ≠ addr → t.table.get? other = s.table.get? other
  /-- The default pointers are the same. -/
  pointers : t.defaultDpp = s.defaultDpp

theorem Store.ChangedAt.refl (s : Store) (addr : Int) : s.ChangedAt s addr (s.table.get? addr) :=
  ⟨rfl, fun _ _ => rfl, rfl⟩

theorem Store.changedAt_put (s : Store) (addr : Int) (entry : Override) :
    s.ChangedAt (s.put addr entry) addr (some entry) := by
  refine ⟨?_, fun other hother => ?_, rfl⟩
  · rw [get?_put, if_pos rfl]
  · rw [get?_put, if_neg hother]

/-- Placing overrides with a span that fits a byte succeeds and changes one entry. -/
theorem Store.placeAll_ok (s : Store) (addr : Int) {span : Int} {remaining : Fin 256} (hspan : span = remaining.val)
    (overlays : List Overlay) :
    ∃ t, s.placeAll addr span overlays = (.ok (), t) ∧
      s.ChangedAt t addr (overlays.foldl (placedOn remaining) (s.table.get? addr)) := by
  induction overlays generalizing s with
  | nil => exact ⟨s, rfl, .refl s addr⟩
  | cons overlay rest ih =>
    have hrange : 0 ≤ span ∧ span < 256 := by
      have := remaining.isLt
      omega
    have hremaining : (⟨span.toNat, by omega⟩ : Fin 256) = remaining := by
      ext
      simp only
      omega
    obtain ⟨t, hplace, hchanged⟩ := ih (s.put addr ((s.get addr).overlay remaining overlay))
    refine ⟨t, ?_, ?_, fun other hother => ?_, ?_⟩
    · rw [placeAll, tryPlace, dif_pos hrange, hremaining]
      exact hplace
    · rw [hchanged.changed, get?_put, if_pos rfl]
      rfl
    · rw [hchanged.kept other hother, get?_put, if_neg hother]
    · rw [hchanged.pointers]
      rfl

/-- Carrying a running override changes at most the entry at the next address. -/
theorem Store.propagate_changedAt (s : Store) (addr length : Int) :
    s.ChangedAt (s.propagate addr length).2 (addr + length)
      (match s.table.get? addr with
        | some current =>
          if runs : current.runsOn = true then
            some (current.carriedTo ((s.table.get? (addr + length)).getD .none) runs)
          else s.table.get? (addr + length)
        | none => s.table.get? (addr + length)) := by
  unfold propagate
  cases s.table.get? addr with
  | none => exact .refl s _
  | some current =>
    by_cases hruns : current.runsOn = true
    · simp only [dif_pos hruns]
      exact changedAt_put s _ _
    · simp only [dif_neg hruns]
      exact .refl s _

/-! ## Decoded extensions -/

/-- A decoded extension instruction holds arguments that its encoding allows. -/
theorem extension_of_decode {bytes : List UInt8} {addr : Int} {i : Instruction} (h : decode bytes addr = .ok i)
    (hext : i.family = .ext) : ∃ layout ext, ext.Encoded layout ∧ i.operand? .ext = some (.extension ext) := by
  have hcomplete := (complete_of_decode h).holds
  rw [hext] at hcomplete
  obtain ⟨op, hop, -⟩ := hcomplete _ List.mem_cons_self
  obtain ⟨entry, -, hyields⟩ := decode_yields h
  generalize entry.layout = layout at hyields
  cases hyields with
  | extension encoded => exact ⟨_, _, encoded, rfl⟩
  | _ => cases hop

theorem Extension.Encoded.count_bounds {layout : Layout} {ext : Extension} (h : ext.Encoded layout) :
    1 ≤ ext.count ∧ ext.count ≤ 4 := by
  cases h <;> (simp only; omega)

theorem Extension.Encoded.span_val {layout : Layout} {ext : Extension} (h : ext.Encoded layout) :
    (ext.span.val : Int) = ext.count - 1 := by
  obtain ⟨hpos, hle⟩ := h.count_bounds
  unfold span byteOf
  rw [Fin.val_ofNat, Nat.mod_eq_of_lt (by omega)]
  omega

/-- Every row of the table is two or four bytes long. -/
theorem opcodeTable_length : ∀ entry ∈ opcodeTable, entry.length = 2 ∨ entry.length = 4 := by
  decide +kernel

theorem length_of_decode {bytes : List UInt8} {addr : Int} {i : Instruction} (h : decode bytes addr = .ok i) :
    i.length = 2 ∨ i.length = 4 := by
  obtain ⟨entry, hmem, hyields⟩ := decode_yields h
  rw [hyields.header.2.1]
  rcases opcodeTable_length entry hmem with hlength | hlength
  · exact .inl (by rw [hlength]; rfl)
  · exact .inr (by rw [hlength]; rfl)

/-! ## The step -/

section Step

variable {bytes : List UInt8} {addr : Int} {i : Instruction}

/-- Tracing apart, an extension is lifted by `liftExtension`. -/
theorem lift_extension (l : Lifter) (s : Store) (hext : i.family = .ext) :
    (l.lift s i addr).answer = (liftExtension s addr i).answer ∧
      (l.lift s i addr).store = (liftExtension s addr i).store := by
  simp only [Lifter.lift, hext, and_self]

/-- Tracing apart, any other instruction is emitted, and then a running override is carried on. -/
theorem lift_plain (l : Lifter) (s : Store) {code : List Stmt} (hext : i.family ≠ .ext)
    (hcode : emit l.variant s addr i = .ok code) :
    (l.lift s i addr).answer = .ok ⟨i.length, code⟩ ∧
      (l.lift s i addr).store = (s.propagate addr i.length).2 := by
  have hplain : liftPlain l.variant s addr i = ⟨.ok ⟨i.length, code⟩, (s.propagate addr i.length).2, []⟩ := by
    rw [liftPlain, hcode]
  unfold Lifter.lift
  cases hfamily : i.family
  case ext => exact absurd hfamily hext
  all_goals simp only [hplain, and_self]

theorem liftExtension_register {ext : Extension} {r : Register} (s : Store)
    (hoperand : i.operand? .ext = some (.extension ext)) (hreg : ext.register = some r) :
    liftExtension s addr i = ⟨.ok ⟨i.length, [.unimplemented]⟩, s, []⟩ := by
  simp only [liftExtension, Instruction.operand, hoperand, hreg]

theorem liftExtension_immediate {ext : Extension} {s t : Store}
    (hoperand : i.operand? .ext = some (.extension ext)) (hreg : ext.register = none)
    (hplaced : s.placeAll (addr + i.length) (ext.count - 1) ext.overlays = (.ok (), t)) :
    liftExtension s addr i =
      ⟨.ok ⟨i.length, [.nop]⟩, t, [.extended i.mnemonic addr (addr + i.length) ext.count]⟩ := by
  simp only [liftExtension, Instruction.operand, hoperand, hreg, hplaced]

/-- Lifting a decoded instruction succeeds and changes at most the entry at the next address. -/
theorem lift_decoded (h : decode bytes addr = .ok i) (l : Lifter) (s : Store) :
    (∃ code, (l.lift s i addr).answer = .ok ⟨i.length, code⟩) ∧
      s.ChangedAt (l.lift s i addr).store (addr + i.length)
        (i.leaves (s.table.get? addr) (s.table.get? (addr + i.length))) := by
  by_cases hext : i.family = .ext
  · obtain ⟨layout, ext, hencoded, hoperand⟩ := extension_of_decode h hext
    rw [(lift_extension l s hext).1, (lift_extension l s hext).2]
    cases hreg : ext.register with
    | some r =>
      rw [liftExtension_register s hoperand hreg, Instruction.leaves_register hext hoperand hreg]
      exact ⟨⟨_, rfl⟩, .refl s _⟩
    | none =>
      obtain ⟨t, hplaced, hchanged⟩ :=
        s.placeAll_ok (addr + i.length) hencoded.span_val.symm ext.overlays
      rw [liftExtension_immediate hoperand hreg hplaced, Instruction.leaves_extension hext hoperand hreg]
      exact ⟨⟨_, rfl⟩, hchanged⟩
  · obtain ⟨code, hcode⟩ := emit_ok l.variant s addr (complete_of_decode h) hext
    obtain ⟨hanswer, hstore⟩ := lift_plain l s hext hcode
    rw [hstore, Instruction.leaves_plain hext]
    exact ⟨⟨code, hanswer⟩, s.propagate_changedAt addr i.length⟩

/-- The lifted form of a decoded instruction is the same in stores that look the same from it. -/
theorem lift_answer_congr (h : decode bytes addr = .ok i) (l : Lifter) {s t : Store} (hagree : s.AgreeAt t addr) :
    (l.lift s i addr).answer = (l.lift t i addr).answer := by
  by_cases hext : i.family = .ext
  · obtain ⟨layout, ext, hencoded, hoperand⟩ := extension_of_decode h hext
    rw [(lift_extension l s hext).1, (lift_extension l t hext).1]
    cases hreg : ext.register with
    | some r => rw [liftExtension_register s hoperand hreg, liftExtension_register t hoperand hreg]
    | none =>
      obtain ⟨s', hs, -⟩ := s.placeAll_ok (addr + i.length) hencoded.span_val.symm ext.overlays
      obtain ⟨t', ht, -⟩ := t.placeAll_ok (addr + i.length) hencoded.span_val.symm ext.overlays
      rw [liftExtension_immediate hoperand hreg hs, liftExtension_immediate hoperand hreg ht]
  · obtain ⟨code, hcode⟩ := emit_ok l.variant s addr (complete_of_decode h) hext
    have hcode' : emit l.variant t addr i = .ok code := by
      rw [← hagree.emit]
      exact hcode
    rw [(lift_plain l s hext hcode).1, (lift_plain l t hext hcode').1]

end Step

end Lift166
