import Lift166.Proofs.StraightLine

/-!
# The span of an extension

No entry says where an extension begins or ends. On a line that is lifted from an empty table, the entry at an
instruction is nevertheless decided by the last extension before it: that extension is in force there if it names its
page or segment outright and its count reaches that far, and then the entry is the one it prescribes. Otherwise there
is no entry.
-/

namespace Lift166

/-! ## What an extension prescribes -/

/-- The kinds that an extension brings into force. -/
def ExtensionKind.kindSet : ExtensionKind → KindSet
  | atomic => .atomicOnly
  | extr => .registerOnly
  | exts => .segmentOnly
  | extp => .pageOnly
  | extsr => KindSet.registerOnly.union .segmentOnly
  | extpr => KindSet.registerOnly.union .pageOnly
  | named _ => .none

theorem KindSet.none_union (k : KindSet) : none.union k = k := by
  have hreserved : ∀ r : Fin 8, (0 : Fin 8) ||| r = r := by decide
  simp only [union, none, Bool.false_or, hreserved]

theorem ExtensionKind.kindSet_spanned (kind : ExtensionKind) : kind.kindSet.spanned = kind.kindSet := by
  cases kind <;> rfl

theorem ExtensionKind.kindSet_page (kind : ExtensionKind) : kind.kindSet.page = kind.hasPage := by
  cases kind <;> rfl

theorem ExtensionKind.kindSet_segment (kind : ExtensionKind) : kind.kindSet.segment = kind.hasSegment := by
  cases kind <;> rfl

/-- The entry is the one that an extension prescribes for the `distance`-th instruction after it. -/
structure Extension.Prescribes (ext : Extension) (distance : Nat) (entry : Override) : Prop where
  /-- The kinds in force are those of the extension. -/
  kinds : entry.kinds = ext.kind.kindSet
  /-- It brings some kind into force. -/
  spanned : entry.kinds.hasSpanned = true
  /-- The instructions up to this one are taken off its count. -/
  remaining : (entry.remaining.val : Int) = ext.count - distance
  /-- The page is the decoded one, if the extension has one. -/
  page : if ext.kind.hasPage then ext.value = some (entry.page.val : Int) else entry.page = 0
  /-- The segment is the decoded one, if the extension has one. -/
  segment : if ext.kind.hasSegment then ext.value = some (entry.segment.val : Int) else entry.segment = 0
  /-- There are no pointers. -/
  dpp : entry.dpp = .zero

section Prescribes

variable {ext : Extension} {layout : Layout} {distance : Nat} {entry : Override}

/-- An extension that names its page or segment outright leaves what it prescribes for the next instruction. -/
theorem Extension.Encoded.prescribes (h : ext.Encoded layout) (hreg : ext.register = none) :
    ∃ entry, ext.overlays.foldl (placedOn ext.span) none = some entry ∧ ext.Prescribes 1 entry := by
  have hspan := h.span_val
  cases h with
  | atomic count => exact ⟨_, rfl, rfl, rfl, hspan, rfl, rfl, rfl⟩
  | bank count => exact ⟨_, rfl, rfl, rfl, hspan, rfl, rfl, rfl⟩
  | segment kind count value sort =>
    have hvalue : some (value.val : Int) = some ((Segment.ofInt value.val).val : Int) := by
      rw [Segment.ofInt_val]
    rcases sort with rfl | rfl
    · exact ⟨_, rfl, rfl, rfl, hspan, rfl, hvalue, rfl⟩
    · exact ⟨_, rfl, rfl, rfl, hspan, rfl, hvalue, rfl⟩
  | page kind count value sort =>
    have hvalue : some (value.val : Int) = some ((Page.ofInt value.val).val : Int) := by
      rw [Page.ofInt_val]
    rcases sort with rfl | rfl
    · exact ⟨_, rfl, rfl, rfl, hspan, hvalue, rfl, rfl⟩
    · exact ⟨_, rfl, rfl, rfl, hspan, hvalue, rfl, rfl⟩
  | register => cases hreg

/-- A prescribed entry runs on as long as the count is not used up. -/
theorem Extension.Prescribes.runsOn_iff (h : ext.Prescribes distance entry) :
    entry.runsOn = true ↔ (distance : Int) < ext.count := by
  have hremaining := h.remaining
  unfold Override.runsOn
  rw [h.spanned, Bool.and_true, decide_eq_true_iff]
  omega

/-- Carried on, a prescribed entry is the one prescribed for the instruction after. -/
theorem Extension.Prescribes.carried (h : ext.Prescribes distance entry) (runs : entry.runsOn = true) :
    ext.Prescribes (distance + 1) (entry.carriedTo .none runs) := by
  have hkinds : (entry.carriedTo .none runs).kinds = ext.kind.kindSet := by
    unfold Override.carriedTo
    rw [h.kinds, ExtensionKind.kindSet_spanned]
    exact KindSet.none_union _
  have hremaining := h.remaining
  have hpage := h.page
  have hsegment := h.segment
  refine ⟨hkinds, ?_, ?_, ?_, ?_, rfl⟩
  · rw [hkinds, ← h.kinds]
    exact h.spanned
  · have hfewer := Override.remaining_carriedTo .none runs
    omega
  · simp only [Override.carriedTo, h.kinds, ExtensionKind.kindSet_page]
    by_cases hhas : ext.kind.hasPage = true
    · simp only [if_pos hhas] at hpage ⊢
      exact hpage
    · simp only [if_neg hhas]
      rfl
  · simp only [Override.carriedTo, h.kinds, ExtensionKind.kindSet_segment]
    by_cases hhas : ext.kind.hasSegment = true
    · simp only [if_pos hhas] at hsegment ⊢
      exact hsegment
    · simp only [if_neg hhas]
      rfl

end Prescribes

/-! ## The last extension before an instruction -/

/-- The last extension before position `j` of a line stands at position `i`, names its page or segment outright, and
its count reaches as far as `j`. -/
structure Covers (block : List Instruction) (i j : Nat) (ext : Extension) : Prop where
  /-- It stands before `j`. -/
  before : i < j
  /-- There is an extension at `i`. -/
  extension : ∃ e, block[i]? = some e ∧ e.family = .ext ∧ e.operand? .ext = some (.extension ext)
  /-- There is none between the two. -/
  nearest : ∀ k, i < k → k < j → ∀ e, block[k]? = some e → e.family ≠ .ext
  /-- It is not a register form. -/
  immediate : ext.register = none
  /-- Its count is not used up. -/
  reaches : (j : Int) - i ≤ ext.count

section Covers

variable {block : List Instruction} {i i' j : Nat} {ext ext' : Extension} {e : Instruction}

theorem Covers.unique (h : Covers block i j ext) (h' : Covers block i' j ext') : i = i' ∧ ext = ext' := by
  obtain ⟨e, he, hfamily, hoperand⟩ := h.extension
  obtain ⟨e', he', hfamily', hoperand'⟩ := h'.extension
  have hi : i = i' := by
    rcases Nat.lt_trichotomy i i' with hlt | heq | hlt
    · exact absurd hfamily' (h.nearest i' hlt h'.before e' he')
    · exact heq
    · exact absurd hfamily (h'.nearest i hlt h.before e he)
  subst hi
  rw [he] at he'
  cases he'
  rw [hoperand] at hoperand'
  cases hoperand'
  exact ⟨rfl, rfl⟩

/-- Right after an extension, only that extension can be in force. -/
theorem covers_succ_of_ext (he : block[j]? = some e) (hfamily : e.family = .ext)
    (hoperand : e.operand? .ext = some (.extension ext)) :
    Covers block i (j + 1) ext' ↔ i = j ∧ ext' = ext ∧ ext.register = none ∧ 1 ≤ ext.count := by
  constructor
  · rintro ⟨hbefore, ⟨e', he', -, hoperand'⟩, hnearest, himmediate, hreaches⟩
    have hi : i = j := by
      rcases Nat.lt_succ_iff_lt_or_eq.1 hbefore with hlt | heq
      · exact absurd hfamily (hnearest j hlt (Nat.lt_succ_self j) e he)
      · exact heq
    subst hi
    rw [he] at he'
    cases he'
    rw [hoperand] at hoperand'
    cases hoperand'
    exact ⟨rfl, rfl, himmediate, by omega⟩
  · rintro ⟨rfl, rfl, himmediate, hcount⟩
    exact ⟨Nat.lt_succ_self i, ⟨e, he, hfamily, hoperand⟩, fun k _ _ => by omega, himmediate, by omega⟩

/-- Past any other instruction, an extension stays in force unless its count is used up. -/
theorem covers_succ_of_plain (he : block[j]? = some e) (hfamily : e.family ≠ .ext) :
    Covers block i (j + 1) ext ↔ Covers block i j ext ∧ (j : Int) - i < ext.count := by
  constructor
  · rintro ⟨hbefore, hextension, hnearest, himmediate, hreaches⟩
    have hij : i ≠ j := by
      rintro rfl
      obtain ⟨e', he', hfamily', -⟩ := hextension
      rw [he] at he'
      cases he'
      exact hfamily hfamily'
    refine ⟨⟨by omega, hextension, fun k hik hkj => hnearest k hik (by omega), himmediate, by omega⟩, by omega⟩
  · rintro ⟨⟨hbefore, hextension, hnearest, himmediate, -⟩, hlt⟩
    refine ⟨by omega, hextension, fun k hik hkj e' he' => ?_, himmediate, by omega⟩
    rcases Nat.lt_succ_iff_lt_or_eq.1 hkj with hlt' | rfl
    · exact hnearest k hik hlt' e' he'
    · rw [he] at he'
      cases he'
      exact hfamily

end Covers

/-! ## Lifting from an empty table -/

/-- What a look-up at position `j` of a line gives: the entry that the extension in force prescribes, or nothing if
none is in force. -/
inductive Decided (block : List Instruction) (j : Nat) : Option Override → Prop
  | covered {i : Nat} {ext : Extension} {entry : Override} (covers : Covers block i j ext)
      (prescribes : ext.Prescribes (j - i) entry) : Decided block j (some entry)
  | uncovered (free : ∀ i ext, ¬ Covers block i j ext) : Decided block j none

section Decided

variable {start : Int} {block : List Instruction} {j : Nat} {e : Instruction} {here : Option Override}

/-- An extension decides what the next instruction finds. -/
theorem decided_succ_of_ext (he : block[j]? = some e) (hdecodes : Site.Decodes ⟨addressAt start block j, e⟩)
    (hfamily : e.family = .ext) : Decided block (j + 1) (e.leaves here none) := by
  obtain ⟨bytes, hbytes⟩ := hdecodes
  obtain ⟨layout, ext, hencoded, hoperand⟩ := extension_of_decode hbytes hfamily
  cases hreg : ext.register with
  | none =>
    obtain ⟨entry, hentry, hprescribes⟩ := hencoded.prescribes hreg
    rw [Instruction.leaves_extension hfamily hoperand hreg, hentry]
    have hcovers : Covers block j (j + 1) ext :=
      (covers_succ_of_ext he hfamily hoperand).2 ⟨rfl, rfl, hreg, hencoded.count_bounds.1⟩
    refine .covered hcovers ?_
    rw [Nat.add_sub_cancel_left]
    exact hprescribes
  | some r =>
    rw [Instruction.leaves_register hfamily hoperand hreg]
    refine .uncovered fun i ext' hcovers => ?_
    obtain ⟨-, -, hnone, -⟩ := (covers_succ_of_ext he hfamily hoperand).1 hcovers
    rw [hreg] at hnone
    cases hnone

/-- Any other instruction hands on what it finds, one off the count. -/
theorem Decided.succ_of_plain (h : Decided block j here) (he : block[j]? = some e) (hfamily : e.family ≠ .ext) :
    Decided block (j + 1) (e.leaves here none) := by
  rw [Instruction.leaves_plain hfamily]
  cases h with
  | @covered i ext entry hcovers hprescribes =>
    have hbefore := hcovers.before
    have hdistance : ((j - i : Nat) : Int) = j - i := by omega
    by_cases hlt : (j : Int) - i < ext.count
    · have hruns : entry.runsOn = true := hprescribes.runsOn_iff.2 (by omega)
      simp only [dif_pos hruns]
      refine .covered ((covers_succ_of_plain he hfamily).2 ⟨hcovers, hlt⟩) ?_
      rw [show j + 1 - i = j - i + 1 by omega]
      exact hprescribes.carried hruns
    · have hruns : ¬ entry.runsOn = true := fun hruns => hlt (by rw [← hdistance]; exact hprescribes.runsOn_iff.1 hruns)
      simp only [dif_neg hruns]
      refine .uncovered fun i' ext' hcovers' => ?_
      obtain ⟨hcovers', hlt'⟩ := (covers_succ_of_plain he hfamily).1 hcovers'
      obtain ⟨rfl, rfl⟩ := hcovers.unique hcovers'
      exact hlt hlt'
  | uncovered hfree =>
    exact .uncovered fun i ext hcovers => hfree i ext ((covers_succ_of_plain he hfamily).1 hcovers).1

/-- On a line lifted from an empty table, the entry at an instruction is decided by the extensions before it. -/
theorem StraightLine.decided (h : StraightLine start block) (l : Lifter) (dpp : DppVector) (hj : j ≤ block.length) :
    Decided block j ((l.storeAt (.empty dpp) start block j).table.get? (addressAt start block j)) := by
  induction j with
  | zero => exact .uncovered fun i ext hcovers => absurd hcovers.before (Nat.not_lt_zero i)
  | succ j ih =>
    have he := List.getElem?_eq_getElem (show j < block.length by omega)
    have hhere := ih (by omega)
    rw [h.get?_storeAt_succ l (.empty dpp) he]
    -- nothing has been placed at the next address when the instruction is lifted
    show Decided block (j + 1) (block[j].leaves _ none)
    by_cases hfamily : block[j].family = .ext
    · exact decided_succ_of_ext he (h.decodes he) hfamily
    · exact hhere.succ_of_plain he hfamily

/-- The exact span of extensions: when the `j`-th instruction of a line is lifted, something is in force there if and
only if the last extension before it is an immediate form whose count reaches it. The entry is then the one that this
extension prescribes, and otherwise there is none. -/
theorem StraightLine.extension_span (h : StraightLine start block) (l : Lifter) (dpp : DppVector)
    (hj : j < block.length) :
    ((l.storeAt (.empty dpp) start block j).get (addressAt start block j) ≠ .none ↔ ∃ i ext, Covers block i j ext) ∧
      (∀ i ext, Covers block i j ext →
        ∃ entry, (l.storeAt (.empty dpp) start block j).table.get? (addressAt start block j) = some entry ∧
          ext.Prescribes (j - i) entry) ∧
      ((∀ i ext, ¬ Covers block i j ext) →
        (l.storeAt (.empty dpp) start block j).table.get? (addressAt start block j) = none) := by
  have hdecided := h.decided l dpp (Nat.le_of_lt hj)
  unfold Store.get
  generalize (l.storeAt (.empty dpp) start block j).table.get? (addressAt start block j) = here at hdecided ⊢
  cases hdecided with
  | @covered i ext entry hcovers hprescribes =>
    have hentry : entry ≠ .none := by
      rintro rfl
      cases hprescribes.spanned
    refine ⟨⟨fun _ => ⟨i, ext, hcovers⟩, fun _ => hentry⟩, fun i' ext' hcovers' => ?_, fun hfree => ?_⟩
    · obtain ⟨rfl, rfl⟩ := hcovers.unique hcovers'
      exact ⟨entry, rfl, hprescribes⟩
    · exact absurd hcovers (hfree i ext)
  | uncovered hfree =>
    refine ⟨⟨fun hne => absurd rfl hne, ?_⟩, fun i ext hcovers => absurd hcovers (hfree i ext), fun _ => rfl⟩
    rintro ⟨i, ext, hcovers⟩
    exact absurd hcovers (hfree i ext)

end Decided

/-- The second instruction after a page override for two is the last one under it. -/
theorem extension_span_extendPage :
    StraightLine 0x1000 [extendPage, idle, idle] ∧
      Covers [extendPage, idle, idle] 0 2 ⟨.extp, 2, some 3, none⟩ ∧
      ∃ entry, ((⟨.tvx, false⟩ : Lifter).storeAt (.empty .zero) 0x1000 [extendPage, idle, idle] 2).table.get? 0x1006 =
          some entry ∧
        Extension.Prescribes ⟨.extp, 2, some 3, none⟩ 2 entry := by
  have hcovers : Covers [extendPage, idle, idle] 0 2 ⟨.extp, 2, some 3, none⟩ := by
    refine ⟨by decide, ⟨extendPage, rfl, rfl, rfl⟩, fun k hik hkj e he => ?_, rfl, by decide⟩
    obtain rfl : k = 1 := by omega
    cases he
    decide
  exact ⟨straightLine_extendPage, hcovers,
    (straightLine_extendPage.extension_span ⟨.tvx, false⟩ .zero (by decide)).2.1 0 _ hcovers⟩

end Lift166
