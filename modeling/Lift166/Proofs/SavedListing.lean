import Lift166.Proofs.Interleaving
import Lift166.Proofs.SavedTable

/-!
# The listing from a saved table

A table that is saved after a walk holds everything the walk needs to be told again. At each instruction the entry is
final once the walk reaches it, so the store that is left shows to every instruction what it saw when it was lifted.
The walk writes at addresses of the line only; where these fit a record, as the entries before the walk do, the table
can be saved, and a fresh store with the same default pointers that reads it is the store that was left.
-/

namespace Lift166

/-! ## What a walk makes of each instruction -/

/-- What is made of a site on the way is made of it in the store that the sites before it leave. -/
theorem Lifter.treatAll_getElem? (l : Lifter) (s : Store) (sites : List Site) (j : Nat) :
    (l.treatAll s sites).1[j]? = sites[j]?.map fun site => (l.treat (l.treatAll s (sites.take j)).2 site).1 := by
  induction sites generalizing s j with
  | nil => rfl
  | cons site rest ih =>
    rw [treatAll_cons]
    cases j with
    | zero => rfl
    | succ j =>
      rw [List.getElem?_cons_succ, List.getElem?_cons_succ, List.take_succ_cons, treatAll_cons]
      exact ih (l.treat s site).2 j

section Line

variable {start : Int} {block : List Instruction} {j : Nat} {i : Instruction}

theorem Lifter.walkLine_getElem? (l : Lifter) (s : Store) (hi : block[j]? = some i) :
    (l.walkLine s start block).1[j]? = some (l.treat (l.storeAt s start block j) ⟨addressAt start block j, i⟩).1 := by
  unfold walkLine storeAt
  rw [treatAll_getElem?, sitesFrom_getElem?, hi]
  rfl

/-- A walk leaves the default pointers alone, however far it has gone. -/
theorem StraightLine.defaultDpp_storeAt (h : StraightLine start block) (l : Lifter) (s : Store) (k : Nat) :
    (l.storeAt s start block k).defaultDpp = s.defaultDpp :=
  l.defaultDpp_treatAll s fun site hsite => h site (List.mem_of_mem_take hsite)

/-- The store that a walk leaves shows to each instruction what it saw when it was lifted. -/
theorem StraightLine.agreeAt_walkLine (h : StraightLine start block) (l : Lifter) (s : Store) (hj : j ≤ block.length) :
    (l.walkLine s start block).2.AgreeAt (l.storeAt s start block j) (addressAt start block j) := by
  rw [← l.storeAt_length]
  apply Store.AgreeAt.of_get?
  · exact h.get?_storeAt_of_le l s hj (Nat.le_refl _)
  · rw [h.defaultDpp_storeAt, h.defaultDpp_storeAt]

/-- So the same is made of it there. -/
theorem StraightLine.treat_walkLine (h : StraightLine start block) (l : Lifter) (s : Store) (hi : block[j]? = some i) :
    some (l.treat (l.walkLine s start block).2 ⟨addressAt start block j, i⟩).1 = (l.walkLine s start block).1[j]? := by
  obtain ⟨hj, -⟩ := List.getElem?_eq_some_iff.1 hi
  have hagree := h.agreeAt_walkLine l s (Nat.le_of_lt hj)
  rw [l.walkLine_getElem? s hi, (h.decodes hi).treat_congr l hagree]

/-! ## Saving what a walk leaves -/

/-- An address is bound after a walk only if it was bound before or is one of the line. -/
theorem StraightLine.mem_addresses_walkLine (h : StraightLine start block) (l : Lifter) (s : Store) {addr : Int}
    (haddr : addr ∈ (l.walkLine s start block).2.table.addresses) :
    addr ∈ s.table.addresses ∨ addr ∈ lineAddresses start block := by
  by_cases hwritten : ∃ site ∈ sitesFrom start block, addr = site.next
  · obtain ⟨site, hsite, rfl⟩ := hwritten
    exact .inr (mem_lineAddresses hsite).2
  · have hother : ∀ site ∈ sitesFrom start block, addr ≠ site.next := fun site hsite heq => hwritten ⟨site, hsite, heq⟩
    obtain ⟨⟨addr', entry⟩, hbinding, rfl⟩ := List.mem_map.1 haddr
    have hfound := AddressMap.get?_eq_some_iff.2 hbinding
    rw [Lifter.walkLine, l.get?_treatAll s h hother] at hfound
    exact .inl (List.mem_map.2 ⟨_, AddressMap.get?_eq_some_iff.1 hfound, rfl⟩)

/-- What a walk leaves can be saved, and comes back whole to a fresh store with the same default pointers. -/
theorem StraightLine.restore_walkLine (h : StraightLine start block) (l : Lifter) (s : Store)
    (hstore : ∀ addr ∈ s.table.addresses, AddressFits addr)
    (hline : ∀ addr ∈ lineAddresses start block, AddressFits addr) :
    ∃ bytes, (l.walkLine s start block).2.serialize = .ok bytes ∧
      (Store.empty s.defaultDpp).deserialize bytes = .ok (l.walkLine s start block).2 := by
  have hfits : ∀ b ∈ (l.walkLine s start block).2.table.toList, AddressFits b.1 := by
    intro b hb
    rcases h.mem_addresses_walkLine l s (List.mem_map_of_mem hb) with haddr | haddr
    · exact hstore b.1 haddr
    · exact hline b.1 haddr
  have hsaved := Store.serialize_eq_ok_iff.2 ⟨hfits, rfl⟩
  have hpointers : (l.walkLine s start block).2.defaultDpp = s.defaultDpp := l.defaultDpp_treatAll s h
  refine ⟨_, hsaved, ?_⟩
  rw [Store.deserialize_serialize hsaved, ← hpointers]
  rfl

/-- **A saved map reproduces the listing.** A store whose addresses fit a record is taken over a straight line whose
addresses, its end among them, fit one too. The store that is left can be saved, and a fresh store with the same
default pointers reads it. From there, with nothing lifted, every instruction is rendered as it was on the walk, and
lifting any one of them gives the code that the walk gave. -/
theorem StraightLine.saved_map_reproduces_listing (h : StraightLine start block) (l : Lifter) (s : Store)
    (hstore : ∀ addr ∈ s.table.addresses, AddressFits addr)
    (hline : ∀ addr ∈ lineAddresses start block, AddressFits addr) :
    ∃ bytes restored, (l.walkLine s start block).2.serialize = .ok bytes ∧
      (Store.empty s.defaultDpp).deserialize bytes = .ok restored ∧
      (l.walkLine s start block).1.length = block.length ∧
      ∀ j i, block[j]? = some i → ∃ lifted tokens,
        (l.walkLine s start block).1[j]? = some ⟨.ok lifted, .ok tokens, .ok tokens⟩ ∧
        render restored i (addressAt start block j) = .ok tokens ∧
        (l.lift restored i (addressAt start block j)).answer = .ok lifted := by
  obtain ⟨bytes, hsaved, hrestored⟩ := h.restore_walkLine l s hstore hline
  refine ⟨bytes, _, hsaved, hrestored, ?_, fun j i hi => ?_⟩
  · rw [Lifter.walkLine, Lifter.treatAll_length, sitesFrom_length]
  · obtain ⟨lifted, tokens, hmade⟩ := (h.decodes hi).treat_complete l (l.walkLine s start block).2
    refine ⟨lifted, tokens, ?_, congrArg Rendition.before hmade, congrArg Rendition.lifted hmade⟩
    rw [← h.treat_walkLine l s hi, hmade]

end Line

instance : DecidablePred AddressFits :=
  fun addr => inferInstanceAs (Decidable (0 ≤ addr ∧ addr < 0x10000000000000000))

/-- An extension of the page is walked, with a page already placed on it by hand. The last instruction that it covers
is looked at again from the saved table. -/
theorem saved_map_reproduces_listing_extendPage :
    StraightLine 0x1000 [extendPage, idle, idle] ∧
      ∃ bytes restored,
        ((⟨.tvx, false⟩ : Lifter).walkLine onePage 0x1000 [extendPage, idle, idle]).2.serialize = .ok bytes ∧
        bytes.length = 108 ∧ (Store.empty .zero).deserialize bytes = .ok restored ∧
        ∃ lifted tokens,
          ((⟨.tvx, false⟩ : Lifter).walkLine onePage 0x1000 [extendPage, idle, idle]).1[2]? =
            some ⟨.ok lifted, .ok tokens, .ok tokens⟩ ∧
          render restored idle 0x1006 = .ok tokens ∧
          ((⟨.tvx, false⟩ : Lifter).lift restored idle 0x1006).answer = .ok lifted := by
  obtain ⟨bytes, restored, hsaved, hrestored, -, hlisting⟩ :=
    straightLine_extendPage.saved_map_reproduces_listing ⟨.tvx, false⟩ onePage (by decide) (by decide)
  refine ⟨straightLine_extendPage, bytes, restored, hsaved, ?_, hrestored, hlisting 2 idle rfl⟩
  cases hsaved
  rfl

end Lift166
