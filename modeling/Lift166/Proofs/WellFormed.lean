import Lift166.Architecture
import Lift166.Proofs.ControlFlow
import Lift166.Proofs.SoundCode

/-!
# Well-formed code

What a host asks of code that it is handed: registers that it has been told of, at the size it has been told;
temporaries that are written before they are read; labels that are marked once, after every branch to them; flags and
flag policies that it knows; and literals that fit their size, whatever address the instruction stands at. The labels
are read off the way in which the code transfers control, which the flow of the instruction fixes; the rest is what
sound code has.
-/

namespace Lift166

open Il

/-- The variant declares the register, and with this size only. -/
def Variant.Declares (v : Variant) (r : Register) (size : Nat) : Prop :=
  (∃ info ∈ v.registers, info.register = r) ∧ ∀ info ∈ v.registers, info.register = r → info.size = size

instance (v : Variant) (r : Register) (size : Nat) : Decidable (v.Declares r size) :=
  inferInstanceAs (Decidable ((∃ info ∈ v.registers, info.register = r) ∧
    ∀ info ∈ v.registers, info.register = r → info.size = size))

theorem Variant.declares_general : ∀ v ∈ Variant.all, ∀ index : Fin 16,
    v.Declares (.word index) 2 ∧ v.Declares (.byte index) 1 := by
  decide +kernel

theorem Variant.declares_system : ∀ v ∈ Variant.all, v.Declares .csp 2 ∧ v.Declares .psw 2 := by
  decide +kernel

theorem Variant.declares_link : ∀ v ∈ Variant.all, ∀ link ∈ v.linkRegister, v.Declares link 3 := by
  decide +kernel

/-- The registers that lifted code uses are declared at the sizes it uses. -/
theorem Variant.Uses.declared {v : Variant} {r : Register} {size : Nat} (hv : v ∈ Variant.all) (h : v.Uses r size) :
    v.Declares r size := by
  cases h with
  | general own =>
    cases own with
    | word index => exact (Variant.declares_general v hv index).1
    | byte index => exact (Variant.declares_general v hv index).2
  | csp => exact (Variant.declares_system v hv).1
  | psw => exact (Variant.declares_system v hv).2
  | link linked => exact Variant.declares_link v hv r linked

namespace Il

/-- The labels that a statement may continue at. -/
def Stmt.mentions : Stmt → List Nat
  | .ifElse _ onTrue onFalse => [onTrue, onFalse]
  | .goto target => [target]
  | _ => []

/-- Labels and branches belong together. -/
structure LabelsPaired (code : List Stmt) : Prop where
  /-- A label that is branched to is marked in one place, and no branch to it comes after that. -/
  marked : ∀ label, (∃ stmt ∈ code, label ∈ stmt.mentions) → ∃ front back, code = front ++ .label label :: back ∧
    .label label ∉ front ∧ .label label ∉ back ∧ ∀ stmt ∈ back, label ∉ stmt.mentions
  mentioned : ∀ label, .label label ∈ code → ∃ stmt ∈ code, label ∈ stmt.mentions

/-- What a host asks of code for a variant. -/
structure WellFormed (v : Variant) (code : List Stmt) : Prop where
  read : ∀ size r, .reg size (.machine r) ∈ nodesOf code → v.Declares r size
  assigned : ∀ size flags r value, .setReg size flags (.machine r) value ∈ code → v.Declares r size
  /-- A temporary is written, with the size it is read at, before the statement that reads it. -/
  temporaries : ∀ before stmt after, code = before ++ stmt :: after → ∀ size index,
    .reg size (.temp index) ∈ stmt.nodes → ∃ flags value, .setReg size flags (.temp index) value ∈ before
  labels : LabelsPaired code
  flags : ∀ flag, .flag flag ∈ nodesOf code ∨ (∃ value, .setFlag flag value ∈ code) → flag ∈ Flag.all
  policies : ∀ policy ∈ (tallyOf code).policies, policy ∈ FlagPolicy.known

/-! ## Labels -/

theorem Stmt.unlabelled_of_not_control {stmt : Stmt} (h : stmt.isControl = false) :
    stmt.mentions = [] ∧ ∀ n, stmt ≠ .label n := by
  cases stmt with
  | ifElse | goto | label => cases h
  | _ => exact ⟨rfl, by simp⟩

/-- Code without branches and labels has nothing to pair. -/
theorem labelsPaired_of_absent {code : List Stmt}
    (h : ∀ stmt ∈ code, stmt.mentions = [] ∧ ∀ n, stmt ≠ .label n) : LabelsPaired code := by
  constructor
  · rintro n ⟨stmt, hstmt, hmention⟩
    rw [(h stmt hstmt).1] at hmention
    cases hmention
  · intro n hmark
    exact absurd rfl ((h _ hmark).2 n)

/-- A branch over a body: the body may leave for the end, and marks no label of its own. -/
theorem labelsPaired_branch {cond : Expr} {yes no : Nat} {body : List Stmt} (hne : yes ≠ no)
    (hbody : ∀ stmt ∈ body, (∀ n ∈ stmt.mentions, n = no) ∧ ∀ n, stmt ≠ .label n) :
    LabelsPaired (.ifElse cond yes no :: .label yes :: (body ++ [.label no])) := by
  have hunmarked : ∀ n, .label n ∉ body := fun n hmark => (hbody _ hmark).2 n rfl
  constructor
  · intro n hmention
    have hcases : n = yes ∨ n = no := by
      obtain ⟨stmt, hstmt, hn⟩ := hmention
      simp only [List.mem_cons, List.mem_append, List.not_mem_nil, or_false] at hstmt
      rcases hstmt with rfl | rfl | hstmt | rfl
      · simpa [Stmt.mentions] using hn
      · cases hn
      · exact .inr ((hbody stmt hstmt).1 n hn)
      · cases hn
    rcases hcases with rfl | rfl
    · refine ⟨[.ifElse cond n no], body ++ [.label no], rfl, by simp, by simp [hunmarked, hne], ?_⟩
      intro stmt hstmt hn
      rcases List.mem_append.1 hstmt with hstmt | hstmt
      · exact hne ((hbody stmt hstmt).1 n hn)
      · rw [List.mem_singleton.1 hstmt] at hn
        cases hn
    · refine ⟨.ifElse cond yes n :: .label yes :: body, [], rfl, ?_, List.not_mem_nil, List.forall_mem_nil _⟩
      simp [hunmarked, hne.symm]
  · intro n hmark
    refine ⟨.ifElse cond yes no, List.mem_cons_self, ?_⟩
    simpa [hunmarked, Stmt.mentions] using hmark

end Il

theorem Il.Stmt.BitWrite.isControl {stmt : Stmt} (h : stmt.BitWrite) : stmt.isControl = false := by
  cases h <;> rfl

/-- However an instruction transfers control, its labels and branches belong together. -/
theorem Flow.Fits.labelsPaired {flow : Flow} {addr : Int} {i : Instruction} {code : List Stmt}
    (h : flow.Fits addr i code) : LabelsPaired code := by
  cases flow with
  | fallthrough => exact labelsPaired_of_absent fun stmt hstmt => Stmt.unlabelled_of_not_control (h stmt hstmt)
  | jump target | call target | trap target | noReturn =>
    cases h
    exact labelsPaired_of_absent (List.forall_mem_singleton.2 ⟨rfl, by simp⟩)
  | branch target next isCall =>
    cases isCall with
    | false =>
      obtain ⟨-, cond, yes, no, between, hne, hbetween, rfl⟩ := h
      have hbody : ∀ stmt ∈ between ++ [.jump (.const 3 target)],
          (∀ n ∈ stmt.mentions, n = no) ∧ ∀ n, stmt ≠ .label n := by
        rw [List.forall_mem_append, List.forall_mem_singleton]
        refine ⟨?_, List.forall_mem_nil _, by simp⟩
        rcases hbetween with rfl | ⟨write, hwrite, rfl⟩
        · exact List.forall_mem_nil _
        · obtain ⟨hmentions, hlabel⟩ := Stmt.unlabelled_of_not_control hwrite.isControl
          rw [List.forall_mem_singleton, hmentions]
          exact ⟨List.forall_mem_nil _, hlabel⟩
      rw [List.append_cons between]
      exact labelsPaired_branch hne hbody
    | true =>
      obtain ⟨-, cond, yes, no, hne, rfl⟩ := h
      have hbody : ∀ stmt ∈ [Stmt.call (.const 3 target), .goto no],
          (∀ n ∈ stmt.mentions, n = no) ∧ ∀ n, stmt ≠ .label n := by
        simp [Stmt.mentions]
      exact labelsPaired_branch hne hbody
  | indirect isCall =>
    obtain ⟨base, mode, width, disp, -, rfl⟩ := h
    refine labelsPaired_of_absent (List.forall_mem_singleton.2 ?_)
    cases isCall <;> exact ⟨rfl, by simp⟩
  | ret =>
    obtain ⟨front, dest, rfl, hfront⟩ := h
    refine labelsPaired_of_absent (List.forall_mem_append.2 ⟨?_, ?_⟩)
    · exact fun stmt hstmt => Stmt.unlabelled_of_not_control (hfront stmt hstmt)
    · exact List.forall_mem_singleton.2 ⟨rfl, by simp⟩

/-! ## Temporaries and policies -/

namespace Il

variable {v : Variant} {written : List Scratch}

theorem Stmt.mem_scratch {stmt : Stmt} {size index : Nat} (h : ⟨size, index⟩ ∈ stmt.scratch) :
    ∃ flags value, stmt = .setReg size flags (.temp index) value := by
  unfold Stmt.scratch at h
  split at h
  · cases List.mem_singleton.1 h
    exact ⟨_, _, rfl⟩
  · cases h

/-- In code that starts without temporaries, one that is read was written by an earlier statement. -/
theorem CodeSound.temporary_written {before after : List Stmt} {stmt : Stmt}
    (h : CodeSound v [] (before ++ stmt :: after)) {size index : Nat} (hread : .reg size (.temp index) ∈ stmt.nodes) :
    ∃ flags value, .setReg size flags (.temp index) value ∈ before := by
  have hsound : (Expr.reg size (.temp index)).Sound v ([] ++ before.flatMap Stmt.scratch) :=
    h.of_append.of_mem_nodes hread
  obtain ⟨writer, hwriter, hscratch⟩ := List.mem_flatMap.1 hsound
  obtain ⟨flags, value, rfl⟩ := Stmt.mem_scratch hscratch
  exact ⟨flags, value, hwriter⟩

theorem knownPolicy_iff {flags : Option FlagPolicy} :
    KnownPolicy flags ↔ ∀ policy ∈ (Tally.policy flags).policies, policy ∈ FlagPolicy.known := by
  simp [KnownPolicy, Tally.policy]

theorem Expr.Sound.policies {e : Expr} (h : e.Sound v written) :
    ∀ policy ∈ e.tally.policies, policy ∈ FlagPolicy.known := by
  induction e with
  | load size address ih => exact ih h
  | unary op size flags arg ih => exact List.forall_mem_append.2 ⟨knownPolicy_iff.1 h.1, ih h.2⟩
  | binary op size flags lhs rhs ihl ihr =>
    exact List.forall_mem_append.2 ⟨knownPolicy_iff.1 h.1, List.forall_mem_append.2 ⟨ihl h.2.1, ihr h.2.2⟩⟩
  | withCarry op size flags lhs rhs carry ihl ihr ihc =>
    have hrest := List.forall_mem_append.2 ⟨ihr h.2.2.1, ihc h.2.2.2⟩
    exact List.forall_mem_append.2 ⟨knownPolicy_iff.1 h.1, List.forall_mem_append.2 ⟨ihl h.2.1, hrest⟩⟩
  | _ => exact List.forall_mem_nil _

theorem Stmt.Sound.policies {stmt : Stmt} (h : stmt.Sound v written) :
    ∀ policy ∈ stmt.tally.policies, policy ∈ FlagPolicy.known := by
  cases stmt with
  | setReg size flags var value =>
    cases var with
    | machine r => exact List.forall_mem_append.2 ⟨knownPolicy_iff.1 h.2.1, h.2.2.policies⟩
    | temp index => exact List.forall_mem_append.2 ⟨knownPolicy_iff.1 h.1, h.2.policies⟩
  | store size flags address value =>
    exact List.forall_mem_append.2 ⟨knownPolicy_iff.1 h.1, List.forall_mem_append.2 ⟨h.2.1.policies, h.2.2.policies⟩⟩
  | jump dest | call dest => exact Expr.Sound.policies h.2
  | setFlag | push | eval | ret | ifElse => exact Expr.Sound.policies h
  | _ => exact List.forall_mem_nil _

theorem CodeSound.policies {code : List Stmt} (h : CodeSound v written code) :
    ∀ policy ∈ (tallyOf code).policies, policy ∈ FlagPolicy.known := by
  induction code generalizing written with
  | nil => exact List.forall_mem_nil _
  | cons stmt rest ih => exact List.forall_mem_append.2 ⟨h.1.policies, ih h.2⟩

/-- Sound code that starts without temporaries and keeps its labels together is well formed. -/
theorem CodeSound.wellFormed {code : List Stmt} (h : CodeSound v [] code) (hv : v ∈ Variant.all)
    (hlabels : LabelsPaired code) : WellFormed v code where
  read size r hread := by
    obtain ⟨written, hsound⟩ := h.of_mem_nodes hread
    exact Variant.Uses.declared hv hsound
  assigned size flags r value hassigned := by
    obtain ⟨written, hsound⟩ := h.of_mem hassigned
    exact hsound.1.declared hv
  temporaries before stmt after hcode size index hread := by
    subst hcode
    exact h.temporary_written hread
  labels := hlabels
  flags flag _ := by cases flag <;> decide
  policies := h.policies

end Il

/-- **Lifted code is well formed**: whatever the address and the overrides, every decoded instruction has code that a
host for the variant can take. -/
theorem lifted_code_well_formed {bytes : List UInt8} {addr : Int} {i : Instruction} (h : decode bytes addr = .ok i)
    (l : Lifter) (hvariant : l.variant ∈ Variant.all) (s : Store) :
    ∃ code, (l.lift s i addr).answer = .ok ⟨i.length, code⟩ ∧ WellFormed l.variant code := by
  obtain ⟨code, hanswer, hemits, hsound⟩ := lift_sound h l s
  obtain ⟨flow, -, hfits⟩ := hemits.flow_fits rfl
  exact ⟨code, hanswer, hsound.wellFormed hvariant hfits.labelsPaired⟩

/-- The division of a double word, which keeps quotient and remainder in temporaries. -/
def divideLong : Instruction :=
  ⟨0x7B, "divlu", .div, 2, [(.src, .reg (.wordAt 3) 2)], [.src], some .all, none, some (.div .divlu)⟩

theorem lifted_code_well_formed_divideLong :
    decode [0x7B, 0x33] (-2) = .ok divideLong ∧ Variant.tc ∈ Variant.all ∧
      ∃ code, ((⟨.tc, false⟩ : Lifter).lift (.empty .zero) divideLong (-2)).answer = .ok ⟨2, code⟩ ∧
        WellFormed .tc code := by
  have hdecode : decode [0x7B, 0x33] (-2) = .ok divideLong := rfl
  have hvariant : Variant.tc ∈ Variant.all := by decide
  exact ⟨hdecode, hvariant, lifted_code_well_formed hdecode ⟨.tc, false⟩ hvariant (.empty .zero)⟩

/-! ## Literals -/

/-- The address lies in the sixteen megabytes that the machine can address. -/
def InAddressSpace (address : Int) : Prop :=
  0 ≤ address ∧ address ≤ 0xFFFFFF

theorem literalFits_address_iff {value : Int} : LiteralFits 3 value ↔ InAddressSpace value := by
  unfold LiteralFits InAddressSpace
  omega

/-- Every literal of the code fits its size; addresses and the destinations of branches lie in the address space. -/
structure Il.LiteralsFit (code : List Stmt) : Prop where
  constants : ∀ size value, .const size value ∈ nodesOf code → LiteralFits size value
  pointers : ∀ size value, .pointer size value ∈ nodesOf code → LiteralFits size value ∧ InAddressSpace value
  destinations : ∀ size value, .jump (.const size value) ∈ code ∨ .call (.const size value) ∈ code →
    InAddressSpace value

theorem Il.CodeSound.literalsFit {v : Variant} {written : List Scratch} {code : List Stmt}
    (h : CodeSound v written code) : LiteralsFit code where
  constants size value hconst := by
    obtain ⟨more, hsound⟩ := h.of_mem_nodes hconst
    exact hsound
  pointers size value hpointer := by
    obtain ⟨more, rfl, hfits⟩ := h.of_mem_nodes hpointer
    exact ⟨hfits, literalFits_address_iff.1 hfits⟩
  destinations size value hbranch := by
    -- a jump and a call ask the same of where they go
    have hsound : size = 3 ∧ LiteralFits size value := by
      rcases hbranch with hjump | hcall
      · obtain ⟨more, hsound⟩ := h.of_mem hjump
        exact hsound
      · obtain ⟨more, hsound⟩ := h.of_mem hcall
        exact hsound
    obtain ⟨rfl, hfits⟩ := hsound
    exact literalFits_address_iff.1 hfits

/-- **Lifted literals fit their size**, at any address and under any overrides. Branch targets and resolved memory
operands lie in the address space. -/
theorem lifted_literals_fit {bytes : List UInt8} {addr : Int} {i : Instruction} (h : decode bytes addr = .ok i)
    (l : Lifter) (s : Store) :
    ∃ code, (l.lift s i addr).answer = .ok ⟨i.length, code⟩ ∧ LiteralsFit code ∧
      (∀ slot target, i.operand slot = .ok (.target target) → InAddressSpace target) ∧
      ∀ raw, InAddressSpace ((s.regime addr).physical raw) := by
  obtain ⟨code, hanswer, -, hsound⟩ := lift_sound h l s
  refine ⟨code, hanswer, hsound.literalsFit, ?_, ?_⟩
  · intro slot target htarget
    exact literalFits_address_iff.1 ((regular_of_decode h).operands htarget)
  · intro raw
    exact literalFits_address_iff.1 (Regime.physical_literalFits _ raw)

/-- A jump within the segment that a negative address lies in. -/
def jumpBelowZero : Instruction :=
  ⟨0xEA, "jmpa", .jump, 4, [(.target, .target 0xFF1234)], [.cond, .target], none, some .uc, some (.transfer .absolute)⟩

theorem lifted_literals_fit_jumpBelowZero :
    decode [0xEA, 0x00, 0x34, 0x12] (-5) = .ok jumpBelowZero ∧
      ((⟨.v2, false⟩ : Lifter).lift (.empty .zero) jumpBelowZero (-5)).answer
        = .ok ⟨4, [.jump (.const 3 0xFF1234)]⟩ ∧
      LiteralsFit [.jump (.const 3 0xFF1234)] := by
  have hdecode : decode [0xEA, 0x00, 0x34, 0x12] (-5) = .ok jumpBelowZero := rfl
  obtain ⟨code, hanswer, hfits, -⟩ := lifted_literals_fit hdecode ⟨.v2, false⟩ (.empty .zero)
  cases hanswer
  exact ⟨hdecode, rfl, hfits⟩

end Lift166
