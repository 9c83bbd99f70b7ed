import Lift166.Proofs.Step

/-!
# Straight lines of code

A straight line is a list of instructions that stand one after the other from an address on, each decoded from
some bytes at its own address. Lifting it in order writes to the table from left to right: the lift of an
instruction writes at the next address and nowhere else. So nothing beyond an instruction has been touched when it
is lifted, and the entry at its address is never written again afterwards.
-/

namespace Lift166

open Il

/-- An instruction at an address. -/
structure Site where
  /-- The address. -/
  addr : Int
  /-- The instruction that stands there. -/
  instruction : Instruction

/-- The address after the instruction. -/
def Site.next (site : Site) : Int :=
  site.addr + site.instruction.length

/-- The instruction is the one that some bytes decode to at the address. -/
def Site.Decodes (site : Site) : Prop :=
  ∃ bytes, decode bytes site.addr = .ok site.instruction

/-- The instructions of a line, one after the other from an address on. -/
def sitesFrom (start : Int) : List Instruction → List Site
  | [] => []
  | i :: rest => ⟨start, i⟩ :: sitesFrom (start + i.length) rest

/-- The address of the `j`-th instruction of a line; that of the end of the line, after the last one. -/
def addressAt (start : Int) : List Instruction → Nat → Int
  | _, 0 => start
  | [], _ => start
  | i :: rest, j + 1 => addressAt (start + i.length) rest j

/-- Every instruction of the line decodes at its address. -/
def StraightLine (start : Int) (block : List Instruction) : Prop :=
  ∀ site ∈ sitesFrom start block, site.Decodes

/-- What is made of an instruction: its lifted form, and its line of text. The host asks for the text whenever it
likes, so it is taken both before and after the lift. -/
structure Rendition where
  /-- The lifted form. -/
  lifted : Except LiftError Lifted
  /-- The tokens of the line before the instruction is lifted. -/
  before : Except InstructionError (List Token)
  /-- The tokens of the line once it has been lifted. -/
  after : Except InstructionError (List Token)

/-- Neither the lifted form nor the line is missing. -/
def Rendition.Complete (r : Rendition) : Prop :=
  ∃ lifted tokens, r = ⟨.ok lifted, .ok tokens, .ok tokens⟩

/-- Lifts and renders the instruction at a site. -/
def Lifter.treat (l : Lifter) (s : Store) (site : Site) : Rendition × Store :=
  let outcome := l.lift s site.instruction site.addr
  (⟨outcome.answer, render s site.instruction site.addr, render outcome.store site.instruction site.addr⟩,
    outcome.store)

/-- Treats the sites of a list in order. -/
def Lifter.treatAll (l : Lifter) (s : Store) : List Site → List Rendition × Store
  | [] => ([], s)
  | site :: rest =>
    let (first, s₁) := l.treat s site
    let (others, s₂) := l.treatAll s₁ rest
    (first :: others, s₂)

/-- Walks a line: lifts and renders its instructions in order. -/
def Lifter.walkLine (l : Lifter) (s : Store) (start : Int) (block : List Instruction) : List Rendition × Store :=
  l.treatAll s (sitesFrom start block)

/-- The store when the `j`-th instruction of a line is about to be lifted. -/
def Lifter.storeAt (l : Lifter) (s : Store) (start : Int) (block : List Instruction) (j : Nat) : Store :=
  (l.treatAll s ((sitesFrom start block).take j)).2

/-! ## Sites and addresses -/

theorem Site.Decodes.addr_lt_next {site : Site} (h : site.Decodes) : site.addr < site.next := by
  obtain ⟨bytes, hbytes⟩ := h
  unfold Site.next
  rcases length_of_decode hbytes with hlength | hlength <;> omega

theorem StraightLine.tail {start : Int} {i : Instruction} {rest : List Instruction}
    (h : StraightLine start (i :: rest)) : StraightLine (start + i.length) rest :=
  fun site hsite => h site (List.mem_cons_of_mem _ hsite)

theorem StraightLine.head {start : Int} {i : Instruction} {rest : List Instruction}
    (h : StraightLine start (i :: rest)) : Site.Decodes ⟨start, i⟩ :=
  h _ List.mem_cons_self

/-- The sites of a line begin at its start, and everything they write is beyond it. -/
theorem StraightLine.start_lt_next {start : Int} {block : List Instruction} (h : StraightLine start block) :
    ∀ site ∈ sitesFrom start block, start < site.next := by
  induction block generalizing start with
  | nil => exact fun _ hmem => absurd hmem List.not_mem_nil
  | cons i rest ih =>
    have hfirst := h.head.addr_lt_next
    rw [sitesFrom, List.forall_mem_cons]
    refine ⟨hfirst, fun site hsite => ?_⟩
    have hrest := ih h.tail site hsite
    unfold Site.next at hfirst
    simp only at hfirst
    omega

theorem sitesFrom_getElem? (start : Int) (block : List Instruction) (j : Nat) :
    (sitesFrom start block)[j]? = block[j]?.map fun i => ⟨addressAt start block j, i⟩ := by
  induction block generalizing start j with
  | nil => rfl
  | cons i rest ih =>
    cases j with
    | zero => rfl
    | succ j =>
      simp only [sitesFrom, List.getElem?_cons_succ]
      exact ih (start + i.length) j

theorem StraightLine.decodes {start : Int} {block : List Instruction} (h : StraightLine start block) {j : Nat}
    {i : Instruction} (hi : block[j]? = some i) : Site.Decodes ⟨addressAt start block j, i⟩ := by
  apply h
  apply List.mem_of_getElem? (i := j)
  rw [sitesFrom_getElem?, hi]
  rfl

theorem addressAt_succ (start : Int) {block : List Instruction} {j : Nat} {i : Instruction}
    (hi : block[j]? = some i) : addressAt start block (j + 1) = addressAt start block j + i.length := by
  induction block generalizing start j with
  | nil => cases hi
  | cons first rest ih =>
    cases j with
    | zero =>
      cases hi
      simp [addressAt]
    | succ j => exact ih (start + first.length) hi

/-- Addresses grow along a line. -/
theorem StraightLine.addressAt_lt_succ {start : Int} {block : List Instruction} (h : StraightLine start block) {j : Nat}
    (hj : j < block.length) : addressAt start block j < addressAt start block (j + 1) := by
  have hi := List.getElem?_eq_getElem hj
  have hpos := (h.decodes hi).addr_lt_next
  rw [addressAt_succ start hi]
  exact hpos

theorem StraightLine.addressAt_lt {start : Int} {block : List Instruction} (h : StraightLine start block) {j k : Nat}
    (hjk : j < k) (hk : k ≤ block.length) : addressAt start block j < addressAt start block k := by
  induction k with
  | zero => omega
  | succ k ih =>
    have hlast := h.addressAt_lt_succ (j := k) (by omega)
    rcases Nat.lt_succ_iff_lt_or_eq.1 hjk with hlt | rfl
    · have := ih hlt (by omega)
      omega
    · exact hlast

theorem StraightLine.addressAt_inj {start : Int} {block : List Instruction} (h : StraightLine start block) {j k : Nat}
    (hj : j ≤ block.length) (hk : k ≤ block.length) (heq : addressAt start block j = addressAt start block k) :
    j = k := by
  rcases Nat.lt_trichotomy j k with hlt | rfl | hlt
  · have := h.addressAt_lt hlt hk
    omega
  · rfl
  · have := h.addressAt_lt hlt hj
    omega

/-- The instruction that does nothing. -/
def idle : Instruction := ⟨0xCC, "nop", .nop, 2, [], [], none, none, none⟩

theorem decode_idle (addr : Int) : decode [0xCC, 0x00] addr = .ok idle :=
  rfl

/-- Instructions that do nothing make a straight line anywhere. -/
theorem straightLine_replicate_idle (start : Int) (n : Nat) : StraightLine start (List.replicate n idle) := by
  intro site hsite
  induction n generalizing start with
  | zero => cases hsite
  | succ n ih =>
    rw [List.replicate_succ, sitesFrom, List.mem_cons] at hsite
    rcases hsite with rfl | hrest
    · exact ⟨_, decode_idle start⟩
    · exact ih _ hrest

/-- A page override for two instructions. -/
def extendPage : Instruction :=
  ⟨0xD7, "extp", .ext, 4, [(.ext, .extension ⟨.extp, 2, some 3, none⟩), (.value, .ofNat 3 2), (.count, .ofNat 2 1)],
    [.value, .count], none, none, none⟩

theorem straightLine_extendPage : StraightLine 0x1000 [extendPage, idle, idle] := by
  intro site hsite
  simp only [sitesFrom, List.mem_cons, List.not_mem_nil, or_false] at hsite
  rcases hsite with rfl | rfl | rfl
  · exact ⟨[0xD7, 0x50, 0x03, 0x00], rfl⟩
  · exact ⟨_, decode_idle _⟩
  · exact ⟨_, decode_idle _⟩

/-! ## Treating one site -/

section Treat

variable {site : Site}

/-- Of the store, treating a site changes at most the entry at the next address. -/
theorem Site.Decodes.changedAt (h : site.Decodes) (l : Lifter) (s : Store) :
    s.ChangedAt (l.treat s site).2 site.next
      (site.instruction.leaves (s.table.get? site.addr) (s.table.get? site.next)) := by
  obtain ⟨bytes, hbytes⟩ := h
  exact (lift_decoded hbytes l s).2

/-- From its own address an instruction sees the same before and after it is lifted. -/
theorem Site.Decodes.agreeAt (h : site.Decodes) (l : Lifter) (s : Store) :
    (l.treat s site).2.AgreeAt s site.addr := by
  have hpos := h.addr_lt_next
  have hchanged := h.changedAt l s
  exact .of_get? (hchanged.kept site.addr (by omega)) hchanged.pointers

/-- A decoded instruction is lifted and rendered. -/
theorem Site.Decodes.treat_complete (h : site.Decodes) (l : Lifter) (s : Store) : (l.treat s site).1.Complete := by
  have hagree := (h.agreeAt l s).render site.instruction
  obtain ⟨bytes, hbytes⟩ := h
  obtain ⟨⟨code, hcode⟩, -⟩ := lift_decoded hbytes l s
  obtain ⟨tokens, htokens⟩ := render_ok hbytes s
  refine ⟨⟨site.instruction.length, code⟩, tokens, ?_⟩
  unfold Lifter.treat at hagree ⊢
  simp only [hcode, hagree, htokens]

/-- What is made of an instruction depends on the store only through what it sees from its address. -/
theorem Site.Decodes.treat_congr (h : site.Decodes) (l : Lifter) {s t : Store} (hagree : s.AgreeAt t site.addr) :
    (l.treat s site).1 = (l.treat t site).1 := by
  have hs := (h.agreeAt l s).render site.instruction
  have ht := (h.agreeAt l t).render site.instruction
  obtain ⟨bytes, hbytes⟩ := h
  have hlifted := lift_answer_congr hbytes l hagree
  have hrender := hagree.render site.instruction
  unfold Lifter.treat at hs ht ⊢
  simp only [hs, ht, hlifted, hrender]

end Treat

/-! ## Treating a line -/

@[simp] theorem Lifter.storeAt_zero (l : Lifter) (s : Store) (start : Int) (block : List Instruction) :
    l.storeAt s start block 0 = s :=
  rfl

theorem Lifter.treatAll_cons (l : Lifter) (s : Store) (site : Site) (rest : List Site) :
    l.treatAll s (site :: rest) =
      ((l.treat s site).1 :: (l.treatAll (l.treat s site).2 rest).1, (l.treatAll (l.treat s site).2 rest).2) :=
  rfl

theorem Lifter.walkLine_cons (l : Lifter) (s : Store) (start : Int) (i : Instruction) (rest : List Instruction) :
    l.walkLine s start (i :: rest) =
      ((l.treat s ⟨start, i⟩).1 :: (l.walkLine (l.treat s ⟨start, i⟩).2 (start + i.length) rest).1,
        (l.walkLine (l.treat s ⟨start, i⟩).2 (start + i.length) rest).2) :=
  rfl

theorem Lifter.treatAll_length (l : Lifter) (s : Store) (sites : List Site) :
    (l.treatAll s sites).1.length = sites.length := by
  induction sites generalizing s with
  | nil => rfl
  | cons site rest ih => rw [treatAll_cons, List.length_cons, List.length_cons, ih]

/-- Treating decoded sites lifts and renders every one of them. -/
theorem Lifter.treatAll_complete (l : Lifter) (s : Store) {sites : List Site}
    (hdecodes : ∀ site ∈ sites, site.Decodes) : ∀ r ∈ (l.treatAll s sites).1, r.Complete := by
  induction sites generalizing s with
  | nil => exact fun _ hmem => absurd hmem List.not_mem_nil
  | cons site rest ih =>
    rw [List.forall_mem_cons] at hdecodes
    rw [treatAll_cons, List.forall_mem_cons]
    exact ⟨hdecodes.1.treat_complete l s, ih _ hdecodes.2⟩

/-- Treating decoded sites writes only at the addresses after them. -/
theorem Lifter.get?_treatAll (l : Lifter) (s : Store) {sites : List Site} {addr : Int}
    (hdecodes : ∀ site ∈ sites, site.Decodes) (hother : ∀ site ∈ sites, addr ≠ site.next) :
    (l.treatAll s sites).2.table.get? addr = s.table.get? addr := by
  induction sites generalizing s with
  | nil => rfl
  | cons site rest ih =>
    rw [List.forall_mem_cons] at hdecodes hother
    rw [treatAll_cons, ih _ hdecodes.2 hother.2]
    exact (hdecodes.1.changedAt l s).kept addr hother.1

theorem Lifter.defaultDpp_treatAll (l : Lifter) (s : Store) {sites : List Site}
    (hdecodes : ∀ site ∈ sites, site.Decodes) : (l.treatAll s sites).2.defaultDpp = s.defaultDpp := by
  induction sites generalizing s with
  | nil => rfl
  | cons site rest ih =>
    rw [List.forall_mem_cons] at hdecodes
    rw [treatAll_cons, ih _ hdecodes.2]
    exact (hdecodes.1.changedAt l s).pointers

theorem Lifter.treatAll_append (l : Lifter) (s : Store) (front back : List Site) :
    l.treatAll s (front ++ back) =
      ((l.treatAll s front).1 ++ (l.treatAll (l.treatAll s front).2 back).1,
        (l.treatAll (l.treatAll s front).2 back).2) := by
  induction front generalizing s with
  | nil => rfl
  | cons site rest ih => simp only [List.cons_append, treatAll, ih]

theorem Lifter.storeAt_succ (l : Lifter) (s : Store) (start : Int) {block : List Instruction} {j : Nat}
    {i : Instruction} (hi : block[j]? = some i) :
    l.storeAt s start block (j + 1) = (l.treat (l.storeAt s start block j) ⟨addressAt start block j, i⟩).2 := by
  have hsite : (sitesFrom start block)[j]? = some ⟨addressAt start block j, i⟩ := by
    rw [sitesFrom_getElem?, hi]
    rfl
  unfold storeAt
  rw [List.take_add_one, hsite, treatAll_append]
  rfl

theorem sitesFrom_length (start : Int) (block : List Instruction) : (sitesFrom start block).length = block.length := by
  induction block generalizing start with
  | nil => rfl
  | cons i rest ih => simp only [sitesFrom, List.length_cons, ih]

/-- After the last instruction the store is that of the whole walk. -/
theorem Lifter.storeAt_length (l : Lifter) (s : Store) (start : Int) (block : List Instruction) :
    l.storeAt s start block block.length = (l.walkLine s start block).2 := by
  unfold storeAt walkLine
  rw [List.take_of_length_le (Nat.le_of_eq (sitesFrom_length start block))]

section Line

variable {start : Int} {block : List Instruction} {j k : Nat} {i : Instruction}

/-- What the lift of the `j`-th instruction does to the store. -/
theorem StraightLine.changedAt (h : StraightLine start block) (l : Lifter) (s : Store) (hi : block[j]? = some i) :
    (l.storeAt s start block j).ChangedAt (l.storeAt s start block (j + 1)) (addressAt start block (j + 1))
      (i.leaves ((l.storeAt s start block j).table.get? (addressAt start block j))
        ((l.storeAt s start block j).table.get? (addressAt start block (j + 1)))) := by
  rw [l.storeAt_succ s start hi, addressAt_succ start hi]
  exact (h.decodes hi).changedAt l (l.storeAt s start block j)

/-- Nothing beyond the next instruction has been touched. -/
theorem StraightLine.get?_storeAt_of_lt (h : StraightLine start block) (l : Lifter) (s : Store)
    (hj : j ≤ block.length) {addr : Int} (haddr : addressAt start block j < addr) :
    (l.storeAt s start block j).table.get? addr = s.table.get? addr := by
  induction j with
  | zero => rfl
  | succ j ih =>
    have hi := List.getElem?_eq_getElem (show j < block.length by omega)
    have hlt := h.addressAt_lt_succ (j := j) (by omega)
    rw [(h.changedAt l s hi).kept addr (by omega)]
    exact ih (by omega) (by omega)

/-- The entry at an instruction is final once the instruction is reached. -/
theorem StraightLine.get?_storeAt_of_le (h : StraightLine start block) (l : Lifter) (s : Store) (hjk : j ≤ k)
    (hk : k ≤ block.length) :
    (l.storeAt s start block k).table.get? (addressAt start block j) =
      (l.storeAt s start block j).table.get? (addressAt start block j) := by
  induction k with
  | zero =>
    obtain rfl : j = 0 := by omega
    rfl
  | succ k ih =>
    rcases Nat.lt_or_eq_of_le hjk with hlt | rfl
    · have hi := List.getElem?_eq_getElem (show k < block.length by omega)
      have haddr := h.addressAt_lt hlt hk
      rw [(h.changedAt l s hi).kept _ (by omega)]
      exact ih (by omega) (by omega)
    · rfl

/-- The entry that an instruction finds at its address is what the instruction before it has left there. -/
theorem StraightLine.get?_storeAt_succ (h : StraightLine start block) (l : Lifter) (s : Store)
    (hi : block[j]? = some i) :
    (l.storeAt s start block (j + 1)).table.get? (addressAt start block (j + 1)) =
      i.leaves ((l.storeAt s start block j).table.get? (addressAt start block j))
        (s.table.get? (addressAt start block (j + 1))) := by
  obtain ⟨hj, -⟩ := List.getElem?_eq_some_iff.1 hi
  rw [(h.changedAt l s hi).changed, h.get?_storeAt_of_lt l s (by omega) (h.addressAt_lt_succ hj)]

end Line

end Lift166
