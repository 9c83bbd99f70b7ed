import Lift166.Proofs.StraightLine

/-!
# Lifting two lines side by side

All lifters share one store, and a host lifts its functions in no fixed order. An instruction reads the entry at its
own address and writes at the next one, so two instructions that have no such address in common do not notice each
other: either may be lifted first. Two lines that share no address can therefore be lifted in any interleaving of
their instructions. Each is treated as if it were alone, and the store at the end is always the same.
-/

namespace Lift166

/-! ## Two sites -/

/-- Neither of two instructions writes where the other reads or writes. -/
structure Site.Apart (a b : Site) : Prop where
  /-- The first does not write where the second stands. -/
  left : a.next ≠ b.addr
  /-- The second does not write where the first stands. -/
  right : b.next ≠ a.addr
  /-- They write at different addresses. -/
  both : a.next ≠ b.next

section Apart

variable {a b : Site}

theorem Site.Apart.symm (hab : a.Apart b) : b.Apart a :=
  ⟨hab.right, hab.left, hab.both.symm⟩

/-- What is made of an instruction is not changed by treating one that is apart from it. -/
theorem Site.Apart.treat_treat (hab : a.Apart b) (ha : a.Decodes) (hb : b.Decodes) (l l' : Lifter) (s : Store) :
    (l'.treat (l.treat s a).2 b).1 = (l'.treat s b).1 := by
  have hchanged := ha.changedAt l s
  have hentry := hchanged.kept b.addr hab.left.symm
  exact hb.treat_congr l' (.of_get? hentry hchanged.pointers)

/-- Two instructions that are apart can be treated in either order. -/
theorem Site.Apart.treat_comm (hab : a.Apart b) (ha : a.Decodes) (hb : b.Decodes) (l l' : Lifter) (s : Store) :
    (l'.treat (l.treat s a).2 b).2 = (l.treat (l'.treat s b).2 a).2 := by
  have hfirst := ha.changedAt l s
  have hsecond := hb.changedAt l' s
  have hleft := hb.changedAt l' (l.treat s a).2
  have hright := ha.changedAt l (l'.treat s b).2
  refine Store.ext_get? (fun addr => ?_) ?_
  · by_cases hnextA : addr = a.next
    · rw [hnextA, hleft.kept a.next hab.both, hfirst.changed, hright.changed, hsecond.kept a.addr hab.right.symm,
        hsecond.kept a.next hab.both]
    · by_cases hnextB : addr = b.next
      · rw [hnextB, hleft.changed, hright.kept b.next hab.both.symm, hsecond.changed,
          hfirst.kept b.addr hab.left.symm, hfirst.kept b.next hab.both.symm]
      · rw [hleft.kept addr hnextB, hfirst.kept addr hnextA, hright.kept addr hnextA, hsecond.kept addr hnextB]
  · rw [hleft.pointers, hfirst.pointers, hright.pointers, hsecond.pointers]

end Apart

/-! ## A site and a list of sites -/

/-- Treating one more site beforehand changes nothing for sites that are apart from it, and it could as well have
been treated afterwards. -/
theorem Lifter.treatAll_treat (l l' : Lifter) {a : Site} {sites : List Site} (ha : a.Decodes)
    (hsites : ∀ site ∈ sites, site.Decodes) (hapart : ∀ site ∈ sites, a.Apart site) (s : Store) :
    l'.treatAll (l.treat s a).2 sites =
      ((l'.treatAll s sites).1, (l.treat (l'.treatAll s sites).2 a).2) := by
  induction sites generalizing s with
  | nil => rfl
  | cons site rest ih =>
    rw [List.forall_mem_cons] at hsites hapart
    have hmade := hapart.1.treat_treat ha hsites.1 l l' s
    have hcomm := hapart.1.treat_comm ha hsites.1 l l' s
    rw [l'.treatAll_cons (l.treat s a).2, hmade, hcomm, ih hsites.2 hapart.2, l'.treatAll_cons s]

/-! ## Interleavings -/

/-- Treats sites of two lists as a schedule calls for them, those on the left with one lifter and those on the right
with the other. -/
def weave (l₁ l₂ : Lifter) (s : Store) : List (Site ⊕ Site) → List (Rendition ⊕ Rendition) × Store
  | [] => ([], s)
  | .inl site :: rest =>
    let (first, s₁) := l₁.treat s site
    let (others, s₂) := weave l₁ l₂ s₁ rest
    (.inl first :: others, s₂)
  | .inr site :: rest =>
    let (first, s₁) := l₂.treat s site
    let (others, s₂) := weave l₁ l₂ s₁ rest
    (.inr first :: others, s₂)

/-- The schedule calls for the sites of the two lists, each list in its own order. -/
structure Interleaves (schedule : List (Site ⊕ Site)) (left right : List Site) : Prop where
  /-- The sites on the left. -/
  lefts : schedule.filterMap Sum.getLeft? = left
  /-- The sites on the right. -/
  rights : schedule.filterMap Sum.getRight? = right

section Weave

variable {schedule : List (Site ⊕ Site)} {left right : List Site}

/-- In any interleaving of two lists of sites that are apart from each other, each list is treated as if it were
alone, and the store at the end is that of one list after the other. -/
theorem Interleaves.weave_eq (h : Interleaves schedule left right) (hleft : ∀ site ∈ left, site.Decodes)
    (hright : ∀ site ∈ right, site.Decodes) (hapart : ∀ a ∈ left, ∀ b ∈ right, a.Apart b) (l₁ l₂ : Lifter)
    (s : Store) :
    (weave l₁ l₂ s schedule).1.filterMap Sum.getLeft? = (l₁.treatAll s left).1 ∧
      (weave l₁ l₂ s schedule).1.filterMap Sum.getRight? = (l₂.treatAll s right).1 ∧
      (weave l₁ l₂ s schedule).2 = (l₂.treatAll (l₁.treatAll s left).2 right).2 := by
  obtain ⟨rfl, rfl⟩ := h
  induction schedule generalizing s with
  | nil => exact ⟨rfl, rfl, rfl⟩
  | cons call rest ih =>
    cases call with
    | inl site =>
      simp only [List.filterMap_cons, Sum.getLeft?_inl, Sum.getRight?_inl] at hleft hright hapart ⊢
      rw [List.forall_mem_cons] at hleft hapart
      obtain ⟨hl, hr, hstore⟩ := ih (l₁.treat s site).2 hleft.2 hright hapart.2
      -- the right-hand list does not notice the site that goes first
      have hothers := l₁.treatAll_treat l₂ hleft.1 hright hapart.1 s
      rw [hothers] at hr
      refine ⟨?_, hr, hstore⟩
      rw [l₁.treatAll_cons, ← hl]
      rfl
    | inr site =>
      simp only [List.filterMap_cons, Sum.getLeft?_inr, Sum.getRight?_inr] at hleft hright hapart ⊢
      rw [List.forall_mem_cons] at hright
      have hsite : ∀ a ∈ List.filterMap Sum.getLeft? rest, site.Apart a := fun a ha =>
        (hapart a ha site List.mem_cons_self).symm
      obtain ⟨hl, hr, hstore⟩ :=
        ih (l₂.treat s site).2 hleft hright.2 fun a ha b hb => hapart a ha b (List.mem_cons_of_mem _ hb)
      -- nor does the left-hand list, so that the site may be put off until it is done
      have hothers := l₂.treatAll_treat l₁ hright.1 hleft hsite s
      rw [hothers] at hl hstore
      refine ⟨hl, ?_, ?_⟩
      · rw [l₂.treatAll_cons, ← hr]
        rfl
      · rw [l₂.treatAll_cons]
        exact hstore

end Weave

/-! ## Lines that share no address -/

/-- The addresses of a line: those of its instructions, and its end. -/
def lineAddresses (start : Int) : List Instruction → List Int
  | [] => [start]
  | i :: rest => start :: lineAddresses (start + i.length) rest

theorem start_mem_lineAddresses (start : Int) (block : List Instruction) : start ∈ lineAddresses start block := by
  cases block <;> exact List.mem_cons_self

/-- An instruction stands and writes at addresses of its line. -/
theorem mem_lineAddresses {start : Int} {block : List Instruction} {site : Site} (h : site ∈ sitesFrom start block) :
    site.addr ∈ lineAddresses start block ∧ site.next ∈ lineAddresses start block := by
  induction block generalizing start with
  | nil => exact absurd h List.not_mem_nil
  | cons i rest ih =>
    rw [sitesFrom, List.mem_cons] at h
    rcases h with rfl | hrest
    · exact ⟨List.mem_cons_self, List.mem_cons_of_mem _ (start_mem_lineAddresses _ rest)⟩
    · obtain ⟨haddr, hnext⟩ := ih hrest
      exact ⟨List.mem_cons_of_mem _ haddr, List.mem_cons_of_mem _ hnext⟩

section Lines

variable {x y : Int} {a b : List Instruction}

theorem apart_of_disjoint (hdisjoint : ∀ addr ∈ lineAddresses x a, addr ∉ lineAddresses y b) :
    ∀ site ∈ sitesFrom x a, ∀ other ∈ sitesFrom y b, site.Apart other := by
  intro site hsite other hother
  obtain ⟨haddr, hnext⟩ := mem_lineAddresses hsite
  obtain ⟨haddr', hnext'⟩ := mem_lineAddresses hother
  refine ⟨fun heq => ?_, fun heq => ?_, fun heq => ?_⟩
  · exact hdisjoint site.next hnext (heq ▸ haddr')
  · exact hdisjoint site.addr haddr (heq ▸ hnext')
  · exact hdisjoint site.next hnext (heq ▸ hnext')

/-- Order independence: two lines that share no address can be lifted in any interleaving. Each is lifted and
rendered, instruction by instruction, as by a walk over it alone from the same store, and every interleaving ends in
the store of one walk after the other. -/
theorem StraightLine.lift_in_any_order (ha : StraightLine x a) (hb : StraightLine y b)
    (hdisjoint : ∀ addr ∈ lineAddresses x a, addr ∉ lineAddresses y b) {schedule : List (Site ⊕ Site)}
    (hschedule : Interleaves schedule (sitesFrom x a) (sitesFrom y b)) (l₁ l₂ : Lifter) (s : Store) :
    (weave l₁ l₂ s schedule).1.filterMap Sum.getLeft? = (l₁.walkLine s x a).1 ∧
      (weave l₁ l₂ s schedule).1.filterMap Sum.getRight? = (l₂.walkLine s y b).1 ∧
      (∀ r ∈ (l₁.walkLine s x a).1 ++ (l₂.walkLine s y b).1, r.Complete) ∧
      (weave l₁ l₂ s schedule).2 = (l₂.walkLine (l₁.walkLine s x a).2 y b).2 := by
  obtain ⟨hleft, hright, hstore⟩ :=
    hschedule.weave_eq ha hb (apart_of_disjoint hdisjoint) l₁ l₂ s
  refine ⟨hleft, hright, fun r hr => ?_, hstore⟩
  rcases List.mem_append.1 hr with hr | hr
  · exact l₁.treatAll_complete s ha r hr
  · exact l₂.treatAll_complete s hb r hr

end Lines

/-- The schedule lifts another function before, within and after the span of an extension. -/
theorem lift_in_any_order_extendPage :
    StraightLine 0x1000 [extendPage, idle, idle] ∧ StraightLine 0x2000 (List.replicate 3 idle) ∧
      (∀ addr ∈ lineAddresses 0x1000 [extendPage, idle, idle],
        addr ∉ lineAddresses 0x2000 (List.replicate 3 idle)) ∧
      ∃ schedule, Interleaves schedule (sitesFrom 0x1000 [extendPage, idle, idle])
          (sitesFrom 0x2000 (List.replicate 3 idle)) ∧
        (weave ⟨.tvx, false⟩ ⟨.v2, true⟩ (.empty .zero) schedule).1.filterMap Sum.getLeft? =
          ((⟨.tvx, false⟩ : Lifter).walkLine (.empty .zero) 0x1000 [extendPage, idle, idle]).1 := by
  have hdisjoint : ∀ addr ∈ lineAddresses 0x1000 [extendPage, idle, idle],
      addr ∉ lineAddresses 0x2000 (List.replicate 3 idle) := by
    decide
  have hidle := straightLine_replicate_idle 0x2000 3
  have hschedule : Interleaves
      [.inr ⟨0x2000, idle⟩, .inl ⟨0x1000, extendPage⟩, .inl ⟨0x1004, idle⟩, .inr ⟨0x2002, idle⟩, .inl ⟨0x1006, idle⟩,
        .inr ⟨0x2004, idle⟩]
      (sitesFrom 0x1000 [extendPage, idle, idle]) (sitesFrom 0x2000 (List.replicate 3 idle)) :=
    ⟨rfl, rfl⟩
  exact ⟨straightLine_extendPage, hidle, hdisjoint, _, hschedule,
    (straightLine_extendPage.lift_in_any_order hidle hdisjoint hschedule ⟨.tvx, false⟩ ⟨.v2, true⟩ (.empty .zero)).1⟩

end Lift166
