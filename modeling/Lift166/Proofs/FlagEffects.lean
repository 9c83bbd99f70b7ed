import Lift166.Proofs.Effects

/-!
# Flag effects

Which flags lifted code updates, against the policy that the family of the instruction declares. Code updates the flags
of a policy through one node that carries it, or by assigning each of the flags. It leaves all flags alone in three cases
where a policy is declared: a push, a word move that is lifted as a push, and an operation whose result is written to a
word that the hardware fixes, since the policy is dropped with the write.
-/

namespace Lift166

open Il

namespace Il.Tally

/-- Exactly the flags of a policy are updated, all at one node or one by one. -/
def Updates (t : Tally) (p : FlagPolicy) : Prop :=
  (t.policies = [p] ∧ t.assigned = []) ∨ (t.policies = [] ∧ t.assigned.Perm p.flags)

/-- No flag is updated. -/
def LeavesFlags (t : Tally) : Prop :=
  t.policies = [] ∧ t.assigned = []

theorem LeavesFlags.not_updates {t : Tally} {p : FlagPolicy} (h : t.LeavesFlags) (hp : p.flags ≠ []) :
    ¬ t.Updates p := by
  obtain ⟨hpolicies, hassigned⟩ := h
  rintro (⟨hone, -⟩ | ⟨-, hperm⟩)
  · rw [hpolicies] at hone
    cases hone
  · rw [hassigned] at hperm
    exact hp hperm.nil_eq.symm

end Il.Tally

/-- Every declared policy has a flag to update. -/
theorem Family.flags_ne_nil {family : Family} {p : FlagPolicy} (h : family.flags = some p) : p.flags ≠ [] := by
  cases family
  all_goals cases h
  all_goals decide

/-- Whether the instruction's family declares flags that lifting it does not update. -/
def Instruction.losesFlags (v : Variant) (s : Store) (addr : Int) (i : Instruction) : Bool :=
  match i.family with
  | .alu => i.operation != some (.alu .cmp) && i.drops s addr .dst
  | .bitLogic => i.operation != some (.bitLogic .bcmp) && i.drops s addr .dst
  | .stack => i.operation == some .push || i.drops s addr .reg
  | .move => i.usesStack v .dst .preDec || i.drops s addr .dst
  | .moveExt => i.drops s addr .dst
  | _ => false

section Families

variable {v : Variant} {s : Store} {addr : Int} {i : Instruction}

theorem Instruction.tally_leavesFlags (h : i.family.flags = none ∨ i.losesFlags v s addr = true) :
    (i.tally v s addr i.family).LeavesFlags := by
  unfold losesFlags at h
  cases hfamily : i.family
  all_goals
    simp only [hfamily, Family.flags, reduceCtorEq, false_or, true_or, Bool.false_eq_true, Bool.and_eq_true,
      Bool.or_eq_true, bne_iff_ne, beq_iff_eq] at h
  all_goals simp only [tally]
  case alu =>
    rw [if_pos h]
    exact ⟨rfl, rfl⟩
  case bitLogic =>
    rw [if_neg h.1, if_pos h.2]
    exact ⟨rfl, rfl⟩
  case ret =>
    split
    · exact ⟨rfl, rfl⟩
    · split
      · exact ⟨rfl, rfl⟩
      · split <;> exact ⟨rfl, rfl⟩
  case stack =>
    rcases h with hpush | hdrops
    · rw [if_pos hpush]
      exact ⟨rfl, rfl⟩
    · rw [if_pos hdrops]
      split <;> exact ⟨rfl, rfl⟩
  case move =>
    rcases h with hstacked | hdrops
    · rw [if_pos hstacked]
      split <;> exact ⟨rfl, rfl⟩
    · rw [if_pos hdrops]
      split
      · split <;> exact ⟨rfl, rfl⟩
      · exact ⟨rfl, rfl⟩
  case moveExt =>
    rw [if_pos h]
    exact ⟨rfl, rfl⟩
  case system | ext => split <;> exact ⟨rfl, rfl⟩
  all_goals exact ⟨rfl, rfl⟩

theorem Instruction.tally_updates {p : FlagPolicy} (hflags : i.flags = i.family.flags) (h : i.family.flags = some p)
    (hmodelled : (i.tally v s addr i.family).unmodelled = 0) (hkept : i.losesFlags v s addr = false) :
    (i.tally v s addr i.family).Updates p := by
  rw [h] at hflags
  unfold losesFlags at hkept
  cases hfamily : i.family
  all_goals
    rw [hfamily] at h hkept hmodelled
    simp only [tally] at hmodelled ⊢
  case alu =>
    rw [if_neg (by simpa using hkept), hflags]
    exact .inl ⟨rfl, rfl⟩
  case prior | bitField => cases hmodelled
  case bitLogic =>
    cases h
    by_cases hop : i.operation = some (.bitLogic .bcmp)
    · rw [if_pos hop]
      exact .inr ⟨rfl, by decide⟩
    · have hdrops : i.drops s addr .dst = false := by simpa [hop] using hkept
      rw [if_neg hop, if_neg (by simp [hdrops]), hflags]
      exact .inl ⟨rfl, rfl⟩
  case stack =>
    rw [Bool.or_eq_false_iff] at hkept
    rw [if_neg (by simpa using hkept.1), if_neg (by simp [hkept.2]), hflags]
    exact .inl ⟨rfl, rfl⟩
  case move =>
    rw [Bool.or_eq_false_iff] at hkept
    rw [if_neg (by simp [hkept.1]), if_neg (by simp [hkept.2]), hflags]
    split <;> exact .inl ⟨rfl, rfl⟩
  case moveExt =>
    rw [if_neg (by simp [hkept]), hflags]
    exact .inl ⟨rfl, rfl⟩
  case cmpStep | unary | mul | div | shift =>
    rw [hflags]
    exact .inl ⟨rfl, rfl⟩
  all_goals cases h

end Families

theorem Layout.Yields.flags_eq {entry : OpcodeEntry} {pc : Int} {layout : Layout} {i : Instruction}
    (h : layout.Yields entry pc i) : i.flags = i.family.flags := by
  cases h <;> rfl

/-- Lifted code updates the flags that its family declares, and only those, unless it is one of the three cases that
lose them: then it updates none. -/
theorem lift_updates_declared_flags_iff {bytes : List UInt8} {addr : Int} {i : Instruction}
    (h : decode bytes addr = .ok i) (l : Lifter) (s : Store) :
    ∃ code, (l.lift s i addr).answer = .ok ⟨i.length, code⟩ ∧
      (i.family.flags = none → (tallyOf code).LeavesFlags) ∧
      ∀ p, i.family.flags = some p → (tallyOf code).unmodelled = 0 →
        ((tallyOf code).Updates p ↔ i.losesFlags l.variant s addr = false) ∧
        (i.losesFlags l.variant s addr = true → (tallyOf code).LeavesFlags) := by
  obtain ⟨entry, -, hyields⟩ := decode_yields h
  obtain ⟨code, hanswer, htally⟩ := lift_tally h l s
  refine ⟨code, hanswer, ?_, ?_⟩
  · intro hnone
    rw [htally]
    exact Instruction.tally_leavesFlags (.inl hnone)
  · intro p hp hmodelled
    have hlost : i.losesFlags l.variant s addr = true → (tallyOf code).LeavesFlags := by
      intro hloses
      rw [htally]
      exact Instruction.tally_leavesFlags (.inr hloses)
    refine ⟨⟨fun hupdates => ?_, fun hkept => ?_⟩, hlost⟩
    · rw [← Bool.not_eq_true]
      intro hloses
      exact (hlost hloses).not_updates (Family.flags_ne_nil hp) hupdates
    · rw [htally] at hmodelled ⊢
      exact Instruction.tally_updates hyields.flags_eq hp hmodelled hkept

/-- Subtracting from the register that is always zero is to update all flags, and updates none. -/
theorem lift_updates_declared_flags_iff_subZeros :
    ∃ i code, decode [0x26, 0x8E, 0x01, 0x00] 0x1000 = .ok i ∧
      ((⟨.tc, false⟩ : Lifter).lift (.empty .zero) i 0x1000).answer = .ok ⟨i.length, code⟩ ∧
      i.family.flags = some .all ∧ (tallyOf code).unmodelled = 0 ∧
      i.losesFlags .tc (.empty .zero) 0x1000 = true ∧ ¬ (tallyOf code).Updates .all ∧ (tallyOf code).LeavesFlags := by
  obtain ⟨i, hdecode⟩ : ∃ i, decode [0x26, 0x8E, 0x01, 0x00] 0x1000 = .ok i := ⟨_, rfl⟩
  obtain ⟨code, hanswer, -, hdeclared⟩ := lift_updates_declared_flags_iff hdecode ⟨.tc, false⟩ (.empty .zero)
  cases hdecode
  obtain rfl : code = [.nop] := by
    injection hanswer with hlifted
    exact (congrArg Lifted.code hlifted).symm
  obtain ⟨hiff, hlost⟩ := hdeclared .all rfl rfl
  exact ⟨_, _, rfl, rfl, rfl, rfl, rfl, fun hupdates => Bool.noConfusion (hiff.1 hupdates), hlost rfl⟩

end Lift166
