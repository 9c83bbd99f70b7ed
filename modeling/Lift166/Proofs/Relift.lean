import Lift166.Proofs.StraightLine

/-!
# Lifting a line again

A host lifts the same code more than once, and every lift writes to the table. Writing is idempotent: what an
instruction leaves at the next address it leaves there again, whatever stood there at first. Since the entry at an
address is final when the instruction there is lifted, a second walk finds at every instruction what the first one
found, and so makes the same of it and leaves the table alone.
-/

namespace Lift166

/-! ## Writing twice -/

theorem KindSet.union_union_self (a b : KindSet) : (a.union b).union b = a.union b := by
  have hreserved : ∀ q r : Fin 8, q ||| r ||| r = q ||| r := by decide
  simp only [union, Bool.or_assoc, Bool.or_self, hreserved]

theorem KindSet.union_right_comm (a b c : KindSet) : (a.union b).union c = (a.union c).union b := by
  have hreserved : ∀ q r t : Fin 8, q ||| r ||| t = q ||| t ||| r := by decide
  simp only [union, Bool.or_right_comm, hreserved]

namespace Override

theorem overlay_overlay_self (entry : Override) (span : Fin 256) (o : Overlay) :
    (entry.overlay span o).overlay span o = entry.overlay span o := by
  cases o <;> simp only [overlay, KindSet.union_union_self]

/-- The register bank may be placed before or after anything else. -/
theorem overlay_registerBank_comm (entry : Override) (span : Fin 256) (o : Overlay) :
    (entry.overlay span .registerBank).overlay span o = (entry.overlay span o).overlay span .registerBank := by
  cases o <;> simp only [overlay, KindSet.union_right_comm]

theorem carriedTo_carriedTo {current : Override} (next : Override) (runs : current.runsOn = true) :
    current.carriedTo (current.carriedTo next runs) runs = current.carriedTo next runs := by
  unfold carriedTo
  simp only [KindSet.union_union_self, mk.injEq, and_true, true_and]
  constructor
  · split <;> rfl
  · split <;> rfl

end Override

/-- Placing what an extension places a second time changes nothing, also where it places two overrides. -/
theorem Extension.place_place (ext : Extension) (span : Fin 256) (next : Option Override) :
    ext.overlays.foldl (placedOn span) (ext.overlays.foldl (placedOn span) next) =
      ext.overlays.foldl (placedOn span) next := by
  have hone : ∀ o, placedOn span (placedOn span next o) o = placedOn span next o := fun o => by
    unfold placedOn
    rw [Option.getD_some, Override.overlay_overlay_self]
  have htwo : ∀ o, placedOn span (placedOn span (placedOn span (placedOn span next .registerBank) o) .registerBank) o =
      placedOn span (placedOn span next .registerBank) o := fun o => by
    unfold placedOn
    simp only [Option.getD_some]
    rw [← Override.overlay_registerBank_comm, Override.overlay_overlay_self, Override.overlay_overlay_self]
  obtain ⟨kind, count, value, register⟩ := ext
  cases kind with
  | atomic => exact hone _
  | extr => exact hone _
  | exts => exact hone _
  | extp => exact hone _
  | extsr => exact htwo _
  | extpr => exact htwo _
  | named => rfl

/-- What a decoded instruction leaves at the next address, it leaves there again. -/
theorem Site.Decodes.leaves_leaves {site : Site} (h : site.Decodes) (here next : Option Override) :
    site.instruction.leaves here (site.instruction.leaves here next) = site.instruction.leaves here next := by
  obtain ⟨bytes, hbytes⟩ := h
  by_cases hext : site.instruction.family = .ext
  · obtain ⟨layout, ext, -, hoperand⟩ := extension_of_decode hbytes hext
    cases hreg : ext.register with
    | none => simp only [Instruction.leaves_extension hext hoperand hreg, Extension.place_place]
    | some r => simp only [Instruction.leaves_register hext hoperand hreg]
  · simp only [Instruction.leaves_plain hext]
    cases here with
    | none => rfl
    | some current =>
      by_cases hruns : current.runsOn = true
      · simp only [dif_pos hruns, Option.getD_some, Override.carriedTo_carriedTo]
      · simp only [dif_neg hruns]

/-! ## Walking twice -/

/-- Once an instruction has left its entry at the next address, treating it again changes nothing. -/
theorem Site.Decodes.treat_settled {site : Site} (h : site.Decodes) (l : Lifter) {s : Store} {next : Option Override}
    (hsettled : s.table.get? site.next = site.instruction.leaves (s.table.get? site.addr) next) :
    (l.treat s site).2 = s := by
  have hchanged := h.changedAt l s
  refine Store.ext_get? (fun addr => ?_) hchanged.pointers
  by_cases haddr : addr = site.next
  · rw [haddr, hchanged.changed, hsettled, h.leaves_leaves]
  · exact hchanged.kept addr haddr

section Walk

variable {start : Int} {block : List Instruction}

/-- A walk does not change what stands before the line or at its start. -/
theorem StraightLine.get?_walkLine (h : StraightLine start block) (l : Lifter) (s : Store) {addr : Int}
    (haddr : addr ≤ start) : (l.walkLine s start block).2.table.get? addr = s.table.get? addr := by
  refine l.get?_treatAll s h fun site hsite => ?_
  have := h.start_lt_next site hsite
  omega

/-- A second walk over a line repeats the first and leaves the store as it is. -/
theorem StraightLine.walkLine_again (h : StraightLine start block) (l : Lifter) (s : Store) :
    l.walkLine (l.walkLine s start block).2 start block = l.walkLine s start block := by
  induction block generalizing start s with
  | nil => rfl
  | cons i rest ih =>
    have hhead : Site.Decodes ⟨start, i⟩ := h.head
    have hpos := hhead.addr_lt_next
    have hchanged := hhead.changedAt l s
    -- `s₁` is the store after the first instruction, `t` the one after the whole line
    generalize hs₁ : (l.treat s ⟨start, i⟩).2 = s₁ at hchanged
    obtain ⟨t, ht⟩ : ∃ t, t = (l.walkLine s₁ (start + i.length) rest).2 := ⟨_, rfl⟩
    have hhere : t.table.get? start = s.table.get? start := by
      rw [ht, h.tail.get?_walkLine l s₁ (Int.le_of_lt hpos)]
      exact hchanged.kept start (by simp only at hpos; omega)
    have hnext : t.table.get? (start + i.length) =
        i.leaves (t.table.get? start) (s.table.get? (start + i.length)) := by
      rw [hhere, ht, h.tail.get?_walkLine l s₁ (Int.le_refl _)]
      exact hchanged.changed
    have hpointers : t.defaultDpp = s.defaultDpp := by
      rw [ht]
      exact (l.defaultDpp_treatAll s₁ h.tail).trans hchanged.pointers
    have hstore : (l.treat t ⟨start, i⟩).2 = t := hhead.treat_settled l hnext
    have hmade : (l.treat t ⟨start, i⟩).1 = (l.treat s ⟨start, i⟩).1 :=
      hhead.treat_congr l (.of_get? hhere hpointers)
    have hrest : l.walkLine t (start + i.length) rest = l.walkLine s₁ (start + i.length) rest := by
      rw [ht]
      exact ih h.tail s₁
    rw [l.walkLine_cons s, hs₁, ← ht, l.walkLine_cons t, hstore, hmade, hrest, ← ht]

/-- Lifting again is stable: a walk lifts and renders every instruction of the line, and walking it once more from
the store that is left makes the same of every instruction and leaves the same store. -/
theorem StraightLine.relift_stable (h : StraightLine start block) (l : Lifter) (s : Store) :
    (l.walkLine s start block).1.length = block.length ∧
      (∀ r ∈ (l.walkLine s start block).1, r.Complete) ∧
      l.walkLine (l.walkLine s start block).2 start block = l.walkLine s start block := by
  refine ⟨?_, l.treatAll_complete s h, h.walkLine_again l s⟩
  rw [Lifter.walkLine, Lifter.treatAll_length, sitesFrom_length]

end Walk

/-- A page placed by hand, then an extension of the page over two idle instructions, walked twice. -/
theorem relift_stable_extendPage :
    StraightLine 0x1000 [extendPage, idle, idle] ∧
      ∃ s, (Store.empty .zero).place 0x1004 (.page 7) 5 = .ok s ∧
        (⟨.v2, false⟩ : Lifter).walkLine ((⟨.v2, false⟩ : Lifter).walkLine s 0x1000 [extendPage, idle, idle]).2 0x1000
            [extendPage, idle, idle] =
          (⟨.v2, false⟩ : Lifter).walkLine s 0x1000 [extendPage, idle, idle] :=
  ⟨straightLine_extendPage, _, rfl, (straightLine_extendPage.relift_stable ⟨.v2, false⟩ _).2.2⟩

end Lift166
