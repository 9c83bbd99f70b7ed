import Lift166.Proofs.References

/-!
# Lines and code name the same locations

A line and the lifted code of an instruction are built from the same operands by different functions. Taken from the same
store they agree: each register and each constant address in the code is on the line, apart from the ones that an
instruction uses without naming them, and each place on the line is used by the code, apart from words that the hardware
fixes and what is lost with a write to one.
-/

namespace Lift166

open Il

/-! ## What a line shows -/

/-- A token shows a place: by the name of a register, by that of a special function register, or by the address. -/
def Place.ShownBy : Place → Token → Prop
  | gpr r, .register name => r.name = name
  | sfr address, .register name => Lift166.specialName? address = some name
  | sfr address, .address value => address = value
  | _, _ => False

theorem Place.shownBy_token (place : Place) : place.ShownBy place.token := by
  cases place with
  | gpr r => rfl
  | sfr address =>
    simp only [token, addressToken]
    split
    · next name hname => exact hname
    · rfl

namespace Instruction

/-- An instruction displays a place in a slot. -/
def Displays (s : Store) (addr : Int) (i : Instruction) (slot : Slot) (place : Place) : Prop :=
  slot ∈ i.display ∧ ∃ op, i.operand slot = .ok op ∧ op.place? s addr = some place

/-- A line shows a place where it shows the slot. -/
def ShowsPlace (s : Store) (addr : Int) (i : Instruction) (tokens : List Token) (slot : Slot) (place : Place) : Prop :=
  ∃ shown, slotTokens s addr i slot = .ok shown ∧ shown <:+: tokens ∧ ∃ token ∈ shown, place.ShownBy token

/-- Code need not use a place on the line: the return address is in a register, the hardware fixes the word, or it fixes
the destination of a source. -/
def Excuses (v : Variant) (s : Store) (addr : Int) (i : Instruction) (slot : Slot) (place : Place) : Prop :=
  (i.operation = some (.ret .retp) ∧ v.linkRegister.isSome) ∨ place.isFixed ∨
    (slot = .src ∧ ∃ dst, i.Displays s addr .dst dst ∧ dst.isFixed)

end Instruction

/-- The line of an instruction names what code refers to, or the instruction uses it without naming it. -/
def Il.Reference.NamedOn (s : Store) (addr : Int) (i : Instruction) (tokens : List Token) : Reference → Prop
  | .reg (.temp _) => True
  | .reg (.machine r) => .register r.name ∈ tokens ∨ (i.family = .ret ∧ (r = .csp ∨ r = .psw ∨ r = .lr))
  | .word address =>
    (∃ slot, i.Displays s addr slot (.sfr address) ∧ i.ShowsPlace s addr tokens slot (.sfr address)) ∨
      ((i.family = .mul ∨ i.family = .div) ∧
        (address = SpecialRegister.mdl.address ∨ address = SpecialRegister.mdh.address))
  | .base address =>
    address = SpecialRegister.dpp0.address ∧
      ∃ slot ∈ i.display, ∃ base mode width disp, i.operand slot = .ok (.indirect base mode width disp)

section Line

variable {s : Store} {addr : Int} {i : Instruction} {tokens : List Token}

/-- Answers of a list are the answers of its members. -/
theorem mapM_mem {ε α β : Type} {f : α → Except ε β} {l : List α} {answers : List β} (h : l.mapM f = .ok answers) {a : α}
    (ha : a ∈ l) : ∃ b ∈ answers, f a = .ok b := by
  induction l generalizing answers with
  | nil => cases ha
  | cons first rest ih =>
    rw [List.mapM_cons, bind_ok_iff] at h
    obtain ⟨b, hb, h⟩ := h
    obtain ⟨bs, hbs, h⟩ := bind_ok_iff.1 h
    cases h
    rcases List.mem_cons.1 ha with rfl | ha
    · exact ⟨b, List.mem_cons_self, hb⟩
    · obtain ⟨c, hc, hfc⟩ := ih hbs ha
      exact ⟨c, List.mem_cons_of_mem _ hc, hfc⟩

theorem infix_separated {operand : List Token} {operands : List (List Token)} (h : operand ∈ operands) :
    operand <:+: separated operands := by
  induction operands with
  | nil => cases h
  | cons first rest ih =>
    cases rest with
    | nil =>
      rw [List.mem_singleton.1 h]
      exact List.infix_refl _
    | cons second others =>
      rw [separated]
      · rcases List.mem_cons.1 h with rfl | h
        · exact (List.prefix_append _ _).isInfix
        · exact (ih h).trans ((List.suffix_cons _ _).trans (List.suffix_append _ _)).isInfix
      · exact fun hnil => List.cons_ne_nil _ _ hnil

/-- A line holds the tokens of each slot that the instruction displays. -/
theorem render_holds_slot (h : render s i addr = .ok tokens) {slot : Slot} (hslot : slot ∈ i.display) :
    ∃ shown, slotTokens s addr i slot = .ok shown ∧ shown <:+: tokens := by
  simp only [render, bind_ok_iff] at h
  obtain ⟨operands, hoperands, h⟩ := h
  obtain ⟨shown, hmem, hshown⟩ := mapM_mem hoperands hslot
  refine ⟨shown, hshown, ?_⟩
  cases h
  have hsome : operands.isEmpty = false := by
    cases operands with
    | nil => cases hmem
    | cons => rfl
  rw [hsome]
  exact (infix_separated hmem).trans ((List.suffix_cons _ _).trans (List.suffix_cons _ _)).isInfix

theorem slotTokens_eq {slot : Slot} {op : Operand} (hslot : slot ≠ .cond) (hop : i.operand slot = .ok op) :
    slotTokens s addr i slot = operandTokens s addr slot op := by
  unfold slotTokens
  split
  · exact absurd rfl hslot
  · rw [hop, ok_bind]

end Line

/-! ## What instructions display -/

section Bound

variable {entry : OpcodeEntry} {layout : Layout} {pc : Int} {i : Instruction} {slot : Slot} {op : Operand}

theorem mem_binds_of_operand (h : i.operand slot = .ok op) : (slot, op) ∈ i.binds := by
  unfold Instruction.operand Instruction.operand? at h
  split at h
  · next found hlookup =>
    cases h
    obtain ⟨front, back, hbinds, -⟩ := List.lookup_eq_some_iff.1 hlookup
    rw [hbinds]
    exact List.mem_append_right _ List.mem_cons_self
  · cases h

/-- An instruction displays its operands, but for the target of a trap and the bare arguments of an extension. -/
theorem Layout.Yields.displays (h : layout.Yields entry pc i) :
    ∀ bind ∈ i.binds, bind.1 ≠ .cond ∧
      (bind.2.sort = .target ∨ bind.2.sort = .extension ∨ bind.1 ∈ i.display) := by
  cases h
  case extension ext encoded =>
    cases encoded <;>
      simp [OpcodeEntry.extending, OpcodeEntry.filled, Extension.shown, Operand.sort]
  all_goals simp [OpcodeEntry.simple, OpcodeEntry.filled, Operand.sort]

/-- The sorts of operand that name a place. -/
def placedSorts : List OperandSort := [.short, .mem, .bit]

/-- The operands that name a place are among those that the layout lists. -/
theorem Layout.Yields.lists_placed (h : layout.Yields entry pc i) :
    ∀ bind ∈ i.binds, bind.2.sort ∈ placedSorts → ∃ given ∈ layout.sorts, given.1 = bind.1 ∧ bind.2.sort ∈ given.2 := by
  cases h
  case pair dst src operands =>
    obtain ⟨dstSorts, srcSorts, hsorts, hdst, hsrc⟩ := operands.sorts
    simp only [OpcodeEntry.simple, OpcodeEntry.filled, hsorts, List.forall_mem_cons]
    exact ⟨fun _ => ⟨_, List.mem_cons_self, rfl, hdst⟩,
      fun _ => ⟨_, List.mem_cons_of_mem _ List.mem_cons_self, rfl, hsrc⟩, by simp⟩
  case extension ext encoded =>
    cases encoded <;>
      simp [OpcodeEntry.extending, OpcodeEntry.filled, Extension.shown, Operand.sort, Operand.ofNat, placedSorts]
  all_goals
    simp [OpcodeEntry.simple, OpcodeEntry.filled, Operand.sort, Operand.ofNibble, Operand.ofPointer, Operand.ofSmall,
      placedSorts, Layout.sorts]

/-- A family needs every operand of its rows that names a place. -/
theorem opcodeTable_needs_placed : ∀ entry ∈ opcodeTable, ∀ given ∈ entry.layout.sorts,
    (∃ sort ∈ given.2, sort ∈ placedSorts) → given.1 ∈ (entry.family.needs entry.operation).map Prod.fst := by
  decide +kernel

/-- A short address has the width of the row, except in the layouts that mix widths. -/
theorem Layout.Yields.short_width (h : layout.Yields entry pc i) :
    ∀ bind ∈ i.binds, ∀ code width, bind.2 = .short code width →
      width = entry.width ∨ layout = .shortMemByte ∨ layout = .memShortByte := by
  cases h
  case pair dst src operands =>
    cases operands <;>
      simp +contextual [OpcodeEntry.simple, OpcodeEntry.filled, Operand.ofNibble, Operand.ofPointer, Operand.ofSmall,
        Operand.ofDisplaced]
  case extension ext encoded =>
    cases encoded <;>
      simp [OpcodeEntry.extending, OpcodeEntry.filled, Extension.shown, Operand.ofNat]
  all_goals simp +contextual [OpcodeEntry.simple, OpcodeEntry.filled, Operand.ofNibble, Operand.ofPointer, Operand.ofSmall]

theorem opcodeTable_stack_width : ∀ entry ∈ opcodeTable, entry.family ∈ [.ret, .stack, .scxt] →
    entry.width = 2 ∧ entry.layout ≠ .shortMemByte ∧ entry.layout ≠ .memShortByte := by
  decide +kernel

end Bound

section Decoded

variable {bytes : List UInt8} {addr : Int} {i : Instruction} {slot : Slot} {op : Operand} {place : Place} {s : Store}

theorem Operand.sort_of_place (h : op.place? s addr = some place) : op.sort ∈ placedSorts := by
  cases op
  case short | mem | bit => simp [sort, placedSorts]
  all_goals cases h

theorem wordOnStack_of_decode (h : decode bytes addr = .ok i) : i.WordOnStack := by
  intro slot code width hfamily hop
  obtain ⟨entry, hmem, hyields⟩ := decode_yields h
  rw [hyields.header.1] at hfamily
  obtain ⟨hwidth, hshortMem, hmemShort⟩ := opcodeTable_stack_width entry hmem hfamily
  rcases hyields.short_width _ (mem_binds_of_operand hop) code width rfl with hrow | hlayout | hlayout
  · rw [hrow, hwidth]
  · exact absurd hlayout hshortMem
  · exact absurd hlayout hmemShort

theorem needs_of_place (h : decode bytes addr = .ok i) (hop : i.operand slot = .ok op)
    (hplace : op.place? s addr = some place) : slot ∈ (i.family.needs i.operation).map Prod.fst := by
  obtain ⟨entry, hmem, hyields⟩ := decode_yields h
  obtain ⟨hfamily, -, hoperation⟩ := hyields.header
  have hsort := Operand.sort_of_place hplace
  obtain ⟨given, hgiven, hslot, hlisted⟩ := hyields.lists_placed _ (mem_binds_of_operand hop) hsort
  have hneeded := opcodeTable_needs_placed entry hmem given hgiven ⟨op.sort, hlisted, hsort⟩
  rwa [hslot, ← hfamily, ← hoperation] at hneeded

/-- An operand that is no target and no extension is displayed, by its own tokens. -/
theorem displayed_of_sort (s : Store) (h : decode bytes addr = .ok i) (hop : i.operand slot = .ok op)
    (hsort : op.sort ≠ .target ∧ op.sort ≠ .extension) :
    slot ∈ i.display ∧ slotTokens s addr i slot = operandTokens s addr slot op := by
  obtain ⟨entry, -, hyields⟩ := decode_yields h
  obtain ⟨hcond, hdisplay⟩ := hyields.displays _ (mem_binds_of_operand hop)
  refine ⟨?_, slotTokens_eq hcond hop⟩
  rcases hdisplay with htarget | hext | hdisplay
  · exact absurd htarget hsort.1
  · exact absurd hext hsort.2
  · exact hdisplay

theorem Operand.sort_ne_of_place (h : op.place? s addr = some place) : op.sort ≠ .target ∧ op.sort ≠ .extension := by
  have hplaced := sort_of_place h
  constructor
  · intro htarget
    rw [htarget] at hplaced
    exact absurd hplaced (by decide)
  · intro hext
    rw [hext] at hplaced
    exact absurd hplaced (by decide)

theorem token_mem_of_place {shown : List Token} (hplace : op.place? s addr = some place)
    (hshown : operandTokens s addr slot op = .ok shown) : place.token ∈ shown := by
  cases op
  all_goals cases hplace
  all_goals cases hshown
  all_goals exact List.mem_cons_self

/-- The line shows every place that the instruction displays. -/
theorem showsPlace_of_place {tokens : List Token} (h : decode bytes addr = .ok i) (hrender : render s i addr = .ok tokens)
    (hop : i.operand slot = .ok op) (hplace : op.place? s addr = some place) :
    slot ∈ i.display ∧ i.ShowsPlace s addr tokens slot place ∧ place.token ∈ tokens := by
  obtain ⟨hdisplay, htokens⟩ := displayed_of_sort s h hop (Operand.sort_ne_of_place hplace)
  obtain ⟨shown, hshown, hstands⟩ := render_holds_slot hrender hdisplay
  have hmem : place.token ∈ shown := token_mem_of_place hplace (htokens ▸ hshown)
  exact ⟨hdisplay, ⟨shown, hshown, hstands, place.token, hmem, place.shownBy_token⟩, hstands.subset hmem⟩

/-- What an operand names is on the line. -/
theorem namedOn_of_names {tokens : List Token} {ref : Reference} (h : decode bytes addr = .ok i)
    (hrender : render s i addr = .ok tokens) (hop : i.operand slot = .ok op) (hnames : op.Names s addr ref) :
    ref.NamedOn s addr i tokens := by
  have hsort : op.sort ≠ .target ∧ op.sort ≠ .extension := by
    cases hnames with
    | place hplace => exact Operand.sort_ne_of_place hplace
    | _ => simp [Operand.sort]
  obtain ⟨hdisplay, htokens⟩ := displayed_of_sort s h hop hsort
  obtain ⟨shown, hshown, hstands⟩ := render_holds_slot hrender hdisplay
  rw [htokens] at hshown
  cases hnames with
  | register r width =>
    cases hshown
    exact .inl (hstands.subset List.mem_cons_self)
  | @place _ place hplace hkept =>
    obtain ⟨-, hshows, htoken⟩ := showsPlace_of_place h hrender hop hplace
    cases place with
    | gpr r => exact .inl htoken
    | sfr address => exact .inl ⟨slot, ⟨hdisplay, op, hop, hplace⟩, hshows⟩
  | pointer base mode width disp =>
    cases hshown
    refine .inl (hstands.subset ?_)
    cases mode <;> simp [pointerTokens]
  | page base mode width disp => exact ⟨rfl, slot, hdisplay, base, mode, width, disp, hop⟩

theorem namedOn_of_mentions {tokens : List Token} {ref : Reference} (h : decode bytes addr = .ok i)
    (hrender : render s i addr = .ok tokens) (hmentions : i.Mentions s addr ref) : ref.NamedOn s addr i tokens := by
  cases hmentions with
  | operand hop hnames => exact namedOn_of_names h hrender hop hnames
  | temp index => trivial
  | product hfamily hpair =>
    refine .inr ⟨hfamily, ?_⟩
    rcases hpair with rfl | rfl
    · exact .inl rfl
    · exact .inr rfl
  | restored hfamily hsystem => exact .inr ⟨hfamily, hsystem⟩

theorem Operand.place_of_isDropped (h : op.isDropped s addr = true) :
    ∃ place, op.place? s addr = some place ∧ place.isFixed = true := by
  cases op
  case short code width => exact ⟨_, rfl, isDropped_short s addr code width ▸ h⟩
  case bit offset pos => exact ⟨_, rfl, isDropped_bit s addr offset pos ▸ h⟩
  all_goals cases h

/-- A source is excused if the write to its destination is dropped. -/
theorem excuses_of_drops (v : Variant) (h : decode bytes addr = .ok i) (hdrops : i.drops s addr .dst = true) :
    i.Excuses v s addr .src place := by
  unfold Instruction.drops at hdrops
  split at hdrops
  · next dst hdst =>
    obtain ⟨fixed, hfound, hfixed⟩ := Operand.place_of_isDropped hdrops
    obtain ⟨hdisplay, -⟩ := displayed_of_sort s h hdst (Operand.sort_ne_of_place hfound)
    exact .inr (.inr ⟨rfl, fixed, ⟨hdisplay, dst, hdst, hfound⟩, hfixed⟩)
  · cases hdrops

/-- A return that needs an operand is excused if the return address is in a register. -/
theorem excuses_of_link {v : Variant} (hfamily : i.family = .ret)
    (hneed : slot ∈ (i.family.needs i.operation).map Prod.fst) (hlink : v.linkRegister.isSome = true) :
    i.Excuses v s addr slot place := by
  by_cases hretp : i.operation = some (.ret .retp)
  · exact .inl ⟨hretp, hlink⟩
  · simp [hfamily, Family.needs, hretp] at hneed

/-- A line and the code lifted from the same store name the same locations. -/
theorem line_and_code_name_same_locations (h : decode bytes addr = .ok i) (l : Lifter)
    (hvariant : l.variant ∈ Variant.all) (s : Store) :
    ∃ tokens code, render s i addr = .ok tokens ∧ (l.lift s i addr).answer = .ok ⟨i.length, code⟩ ∧
      (∀ ref ∈ referencesOf code, ref.NamedOn s addr i tokens) ∧
      ∀ slot place, i.Displays s addr slot place →
        i.ShowsPlace s addr tokens slot place ∧
          (i.Excuses l.variant s addr slot place ∨ place.reference ∈ referencesOf code) := by
  obtain ⟨tokens, hrender⟩ := render_ok h s
  obtain ⟨code, hanswer, hemits⟩ := lift_emits h l s
  have hword := wordOnStack_of_decode h
  refine ⟨tokens, code, hrender, hanswer, ?_, ?_⟩
  · intro ref href
    exact namedOn_of_mentions h hrender (hemits.mentions rfl hvariant hword ref href)
  · rintro slot place ⟨hdisplay, op, hop, hplace⟩
    refine ⟨(showsPlace_of_place h hrender hop hplace).2.1, ?_⟩
    have hneed := needs_of_place h hop hplace
    by_cases hexcused : i.Excuses l.variant s addr slot place
    · exact .inl hexcused
    · refine .inr (hemits.refers_to_place rfl hword hop hplace hneed ?_ ?_ ?_)
      · refine Operand.isDropped_of_place hplace ?_
        rw [← Bool.not_eq_true]
        exact fun hfixed => hexcused (.inr (.inl hfixed))
      · intro hret
        rw [← Option.not_isSome_iff_eq_none]
        exact fun hlink => hexcused (excuses_of_link hret hneed hlink)
      · rintro rfl ⟨-, hdrops⟩
        exact hexcused (excuses_of_drops _ h hdrops)

/-- Adding a memory word to a special function register: the line shows the address of the word, and the code loads it. -/
theorem line_and_code_name_same_locations_addWord :
    ∃ i tokens code, decode [0x02, 0x96, 0xFF, 0x3F] 0x1000 = .ok i ∧ Variant.v2 ∈ Variant.all ∧
      render (.empty .zero) i 0x1000 = .ok tokens ∧
      ((⟨.v2, false⟩ : Lifter).lift (.empty .zero) i 0x1000).answer = .ok ⟨i.length, code⟩ ∧
      i.Displays (.empty .zero) 0x1000 .src (.sfr 0x3FFF) ∧
      i.ShowsPlace (.empty .zero) 0x1000 tokens .src (.sfr 0x3FFF) ∧
      Reference.word 0x3FFF ∈ referencesOf code ∧
      (Reference.word 0x3FFF).NamedOn (.empty .zero) 0x1000 i tokens := by
  obtain ⟨i, hdecode⟩ : ∃ i, decode [0x02, 0x96, 0xFF, 0x3F] 0x1000 = .ok i := ⟨_, rfl⟩
  obtain ⟨tokens, code, hrender, hanswer, hnamed, hplaces⟩ :=
    line_and_code_name_same_locations hdecode ⟨.v2, false⟩ (by decide) (.empty .zero)
  cases hdecode
  obtain ⟨hshows, hused⟩ := hplaces .src (.sfr 0x3FFF) ⟨by decide, _, rfl, rfl⟩
  have hword : Reference.word 0x3FFF ∈ referencesOf code := by
    rcases hused with (⟨hretp, -⟩ | hfixed | ⟨-, dst, ⟨-, op, hop, hplace⟩, hfixed⟩) | hword
    · cases hretp
    · cases hfixed
    · cases hop
      cases hplace
      cases hfixed
    · exact hword
  exact ⟨_, tokens, code, rfl, by decide, hrender, hanswer, ⟨by decide, _, rfl, rfl⟩, hshows, hword, hnamed _ hword⟩

end Decoded

end Lift166
