import Lift166.Proofs.Step

/-!
# What a lift touches

An override that is placed by hand should matter where it was placed, and an instruction that is analysed anew should
not disturb its neighbours. Lifting an instruction therefore writes at the next address only, and what it makes and
writes there depends on no entry but those at its own and at the next address. For both it makes no difference whether
an entry is absent or holds nothing.
-/

namespace Lift166

/-! ## What is left, in terms of what is in force -/

/-- Of its own entry, an instruction passes on only what is in force there. -/
theorem Instruction.leaves_congr_here (i : Instruction) {here here' : Option Override}
    (h : here.getD .none = here'.getD .none) (next : Option Override) : i.leaves here next = i.leaves here' next := by
  by_cases hext : i.family = .ext
  · simp only [leaves, hext]
  · -- an absent entry does not run on, and neither does one that holds nothing
    have hplain : ∀ entry : Option Override,
        i.leaves entry next =
          if runs : (entry.getD .none).runsOn = true then
            some ((entry.getD .none).carriedTo (next.getD .none) runs)
          else next := by
      intro entry
      rw [leaves_plain hext]
      cases entry with
      | none => rfl
      | some current => rfl
    simp only [hplain, h]

/-- Placing overrides on entries with the same in force leaves the same in force. -/
theorem getD_foldl_placedOn (span : Fin 256) (overlays : List Overlay) {next next' : Option Override}
    (h : next.getD .none = next'.getD .none) :
    (overlays.foldl (placedOn span) next).getD .none = (overlays.foldl (placedOn span) next').getD .none := by
  cases overlays with
  | nil => exact h
  | cons overlay rest => rw [List.foldl_cons, List.foldl_cons, placedOn, placedOn, h]

/-- What is in force at the next address afterwards depends on what was in force there before. -/
theorem Instruction.getD_leaves_congr_next (i : Instruction) (here : Option Override) {next next' : Option Override}
    (h : next.getD .none = next'.getD .none) : (i.leaves here next).getD .none = (i.leaves here next').getD .none := by
  by_cases hext : i.family = .ext
  · simp only [leaves, hext]
    split
    · split
      · exact getD_foldl_placedOn _ _ h
      · exact h
    · exact h
  · rw [leaves_plain_getD hext, leaves_plain_getD hext, h]

/-! ## Two stores -/

section Stores

variable {bytes : List UInt8} {addr : Int} {i : Instruction} {s t : Store}

/-- Stores that agree at an instruction and hold the same at the next address hold the same there after the lift. -/
theorem lift_next_congr (h : decode bytes addr = .ok i) (l : Lifter) (hagree : s.AgreeAt t addr)
    (hnext : s.table.get? (addr + i.length) = t.table.get? (addr + i.length)) :
    (l.lift s i addr).store.table.get? (addr + i.length) = (l.lift t i addr).store.table.get? (addr + i.length) := by
  rw [(lift_decoded h l s).2.changed, (lift_decoded h l t).2.changed, hnext]
  exact i.leaves_congr_here hagree.entry _

theorem lift_next_get_congr (h : decode bytes addr = .ok i) (l : Lifter) (hagree : s.AgreeAt t addr)
    (hnext : s.get (addr + i.length) = t.get (addr + i.length)) :
    (l.lift s i addr).store.get (addr + i.length) = (l.lift t i addr).store.get (addr + i.length) := by
  unfold Store.get at hnext ⊢
  rw [(lift_decoded h l s).2.changed, (lift_decoded h l t).2.changed, i.leaves_congr_here hagree.entry]
  exact i.getD_leaves_congr_next _ hnext

/-- **A lift touches only the next address.** At whatever address and for whatever variant, a decoded instruction has
a line and a lifted form under every store; lifting it changes no entry but the one at the next address, and leaves
the default pointers alone. Two stores with the same in force at the instruction and the same default pointers give
it the same line and the same lifted form, whatever they hold elsewhere. If they also agree at the next address, be it
in the entry or in what is in force there, they do so after the lift. -/
theorem lift_touches_only_next (h : decode bytes addr = .ok i) (l : Lifter) :
    (∀ s : Store,
      (∃ tokens, render s i addr = .ok tokens) ∧
      (∃ code, (l.lift s i addr).answer = .ok ⟨i.length, code⟩) ∧
      (∀ other, other ≠ addr + i.length → (l.lift s i addr).store.table.get? other = s.table.get? other) ∧
      (l.lift s i addr).store.defaultDpp = s.defaultDpp) ∧
    ∀ s t : Store, s.defaultDpp = t.defaultDpp → s.get addr = t.get addr →
      render s i addr = render t i addr ∧
      (l.lift s i addr).answer = (l.lift t i addr).answer ∧
      (s.table.get? (addr + i.length) = t.table.get? (addr + i.length) →
        (l.lift s i addr).store.table.get? (addr + i.length)
          = (l.lift t i addr).store.table.get? (addr + i.length)) ∧
      (s.get (addr + i.length) = t.get (addr + i.length) →
        (l.lift s i addr).store.get (addr + i.length) = (l.lift t i addr).store.get (addr + i.length)) := by
  constructor
  · intro s
    obtain ⟨hlifted, hchanged⟩ := lift_decoded h l s
    exact ⟨render_ok h s, hlifted, hchanged.kept, hchanged.pointers⟩
  · intro s t hpointers hentry
    have hagree : s.AgreeAt t addr := ⟨hentry, hpointers⟩
    exact ⟨hagree.render i, lift_answer_congr h l hagree, lift_next_congr h l hagree, lift_next_get_congr h l hagree⟩

end Stores

/-- The same page runs at the instruction in both stores; another address is atomic in one of them only. -/
theorem lift_touches_only_next_pageThree :
    ∃ i s t, decode [0xF2, 0xF4, 0x34, 0x12] 0x1000 = .ok i ∧ (Store.empty .zero).place 0x1000 (.page 3) 2 = .ok s ∧
      s.place 0x2000 .atomic 1 = .ok t ∧ s.get 0x1000 = t.get 0x1000 ∧ s.get 0x2000 ≠ t.get 0x2000 ∧
      render s i 0x1000 = render t i 0x1000 ∧
      ((⟨.tc, false⟩ : Lifter).lift s i 0x1000).answer = ((⟨.tc, false⟩ : Lifter).lift t i 0x1000).answer ∧
      ((⟨.tc, false⟩ : Lifter).lift s i 0x1000).store.table.get? (0x1000 + i.length) =
        ((⟨.tc, false⟩ : Lifter).lift t i 0x1000).store.table.get? (0x1000 + i.length) := by
  obtain ⟨i, hdecode, hlength⟩ : ∃ i, decode [0xF2, 0xF4, 0x34, 0x12] 0x1000 = .ok i ∧ i.length = 4 := ⟨_, rfl, rfl⟩
  obtain ⟨s, hs⟩ : ∃ s, (Store.empty .zero).place 0x1000 (.page 3) 2 = .ok s := ⟨_, rfl⟩
  obtain ⟨t, ht⟩ : ∃ t, s.place 0x2000 .atomic 1 = .ok t := ⟨_, rfl⟩
  have hdefault : s.defaultDpp = t.defaultDpp := by
    cases ht
    rfl
  have hhere : s.get 0x1000 = t.get 0x1000 := by
    cases hs
    cases ht
    rfl
  have hthere : s.get 0x2000 ≠ t.get 0x2000 := by
    cases hs
    cases ht
    decide
  have hnext : s.table.get? (0x1000 + i.length) = t.table.get? (0x1000 + i.length) := by
    rw [hlength]
    cases hs
    cases ht
    rfl
  obtain ⟨hline, hcode, hentry, -⟩ := (lift_touches_only_next hdecode ⟨.tc, false⟩).2 s t hdefault hhere
  exact ⟨i, s, t, hdecode, hs, ht, hhere, hthere, hline, hcode, hentry hnext⟩

end Lift166
