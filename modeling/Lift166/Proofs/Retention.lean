import Lift166.Proofs.Runs

/-!
# Overrides that stay

Placing, carrying on and lifting write the same entries as the edits of a range, so that one of them could undo what
another has done. As long as entries are only added to (`Action.adds`), none does. `Override.KeptIn` says what is kept
from one moment to a later one: the kinds in force, and the data page pointers where they stand beside an override that
runs on. One addition keeps this at every address; since it is a preorder, so does a run.
-/

namespace Lift166

/-! ## What is kept of an entry -/

/-- Every kind of the first set is in the second. The bits without a meaning do not count. -/
structure KindSet.Within (a b : KindSet) : Prop where
  register : a.register = true → b.register = true
  segment : a.segment = true → b.segment = true
  page : a.page = true → b.page = true
  atomic : a.atomic = true → b.atomic = true
  customDpp : a.customDpp = true → b.customDpp = true

namespace KindSet

theorem Within.refl (k : KindSet) : k.Within k :=
  ⟨id, id, id, id, id⟩

theorem Within.trans {a b c : KindSet} (hab : a.Within b) (hbc : b.Within c) : a.Within c where
  register h := hbc.register (hab.register h)
  segment h := hbc.segment (hab.segment h)
  page h := hbc.page (hab.page h)
  atomic h := hbc.atomic (hab.atomic h)
  customDpp h := hbc.customDpp (hab.customDpp h)

theorem within_union (a b : KindSet) : a.Within (a.union b) := by
  constructor
  all_goals
    intro hset
    simp only [union, hset, Bool.true_or]

theorem Within.hasSpanned {a b : KindSet} (h : a.Within b) (hspanned : a.hasSpanned = true) : b.hasSpanned = true := by
  simp only [KindSet.hasSpanned, Bool.or_eq_true] at hspanned ⊢
  rcases hspanned with ((hreg | hseg) | hpage) | hatomic
  · exact .inl (.inl (.inl (h.register hreg)))
  · exact .inl (.inl (.inr (h.segment hseg)))
  · exact .inl (.inr (h.page hpage))
  · exact .inr (h.atomic hatomic)

/-- A set without a kind that runs on lies within the set of the custom pointers alone. -/
theorem within_customDppOnly {k : KindSet} (h : k.hasSpanned = false) : k.Within .customDppOnly := by
  simp only [hasSpanned, Bool.or_eq_false_iff] at h
  obtain ⟨⟨⟨hreg, hseg⟩, hpage⟩, hatomic⟩ := h
  refine ⟨?_, ?_, ?_, ?_, fun _ => rfl⟩
  all_goals simp [hreg, hseg, hpage, hatomic]

end KindSet

/-- The entry has at most been added to: no kind is gone, and custom pointers that stood beside an override which runs
on are the same. -/
structure Override.KeptIn (before after : Override) : Prop where
  kinds : before.kinds.Within after.kinds
  pointers : before.kinds.customDpp = true → before.kinds.hasSpanned = true → after.dpp = before.dpp

namespace Override

theorem KeptIn.refl (entry : Override) : entry.KeptIn entry :=
  ⟨.refl _, fun _ _ => rfl⟩

theorem KeptIn.trans {a b c : Override} (hab : a.KeptIn b) (hbc : b.KeptIn c) : a.KeptIn c := by
  refine ⟨hab.kinds.trans hbc.kinds, fun hcustom hspanned => ?_⟩
  -- what makes the pointers stay in `a` still holds in `b`
  have hb := hbc.pointers (hab.kinds.customDpp hcustom) (hab.kinds.hasSpanned hspanned)
  rw [hb, hab.pointers hcustom hspanned]

theorem keptIn_overlay (entry : Override) (remaining : Fin 256) (overlay : Overlay) :
    entry.KeptIn (entry.overlay remaining overlay) := by
  cases overlay <;> exact ⟨KindSet.within_union _ _, fun _ _ => rfl⟩

theorem keptIn_carriedTo {current : Override} (next : Override) (runs : current.runsOn = true) :
    next.KeptIn (current.carriedTo next runs) :=
  ⟨KindSet.within_union _ _, fun _ _ => rfl⟩

/-- Where no override runs, new pointers may replace whatever there is. -/
theorem keptIn_customDpp {entry : Override} (h : entry.kinds.hasSpanned = false) (dpp : DppVector) :
    entry.KeptIn (.customDpp dpp) := by
  refine ⟨KindSet.within_customDppOnly h, fun _ hspanned => ?_⟩
  rw [h] at hspanned
  cases hspanned

end Override

/-! ## What is kept of a store -/

namespace Store

/-- Every entry has at most been added to. -/
def KeptIn (s t : Store) : Prop :=
  ∀ addr, (s.get addr).KeptIn (t.get addr)

theorem keptIn_put {s : Store} {addr : Int} {entry : Override} (h : (s.get addr).KeptIn entry) :
    s.KeptIn (s.put addr entry) := by
  intro other
  by_cases hother : other = addr
  · subst hother
    rw [get_put_self]
    exact h
  · rw [get_put_of_ne s entry hother]
    exact .refl _

/-- An address that a range edit does not pass over has no override that runs. -/
theorem hasSpanned_of_not_isHeld {s : Store} {addr : Int} (h : s.isHeld addr = false) :
    (s.get addr).kinds.hasSpanned = false := by
  unfold isHeld at h
  unfold get
  cases hentry : s.table.get? addr with
  | none => rfl
  | some entry =>
    rw [hentry] at h
    exact h

/-- One addition keeps every entry. -/
theorem Addition.keptIn {s t : Store} (h : s.Addition t) : s.KeptIn t := by
  cases h with
  | overlay addr remaining overlay => exact keptIn_put (Override.keptIn_overlay _ _ _)
  | carry addr next here runs => exact keptIn_put (Override.keptIn_carriedTo _ _)
  | fill addr dpp free => exact keptIn_put (Override.keptIn_customDpp (hasSpanned_of_not_isHeld free) dpp)

/-- So do any number of them. -/
theorem Additions.keptIn {s t : Store} (h : s.Additions t) : s.KeptIn t := by
  intro addr
  induction h with
  | refl => exact .refl _
  | tail _ haddition ih => exact ih.trans (haddition.keptIn addr)

theorem run_append (s : Store) (before after : List Action) : s.run (before ++ after) = (s.run before).run after :=
  List.foldl_append

theorem run_additions (s : Store) {actions : List Action} (h : ∀ a ∈ actions, a.adds = true) :
    s.Additions (s.run actions) := by
  induction actions generalizing s with
  | nil => exact .refl
  | cons a rest ih =>
    rw [List.forall_mem_cons] at h
    exact (Action.perform_additions h.1 s).trans (ih (a.perform s) h.2)

/-- **No override is dropped.** In a run of placements, carries, lifts and range edits, from whatever store, each kind
that is in force at an address at some moment is in force there at every later one; and from the moment an address
holds custom data page pointers beside an override that runs on, its pointers do not change any more. -/
theorem run_drops_no_override (s : Store) (before after : List Action)
    (h : ∀ a ∈ before ++ after, a.adds = true) (addr : Int) :
    ((s.run before).get addr).kinds.Within ((s.run (before ++ after)).get addr).kinds ∧
      (((s.run before).get addr).kinds.customDpp = true → ((s.run before).get addr).kinds.hasSpanned = true →
        ((s.run (before ++ after)).get addr).dpp = ((s.run before).get addr).dpp) := by
  have hafter : ∀ a ∈ after, a.adds = true := fun a ha => h a (List.mem_append_right before ha)
  have hkept : ((s.run before).get addr).KeptIn ((s.run (before ++ after)).get addr) := by
    rw [run_append]
    exact ((s.run before).run_additions hafter).keptIn addr
  exact ⟨hkept.kinds, hkept.pointers⟩

end Store

/-- Pointers for two slots, and a page on the first of them. -/
def pageOverPointers : List Action :=
  [.setCustomDppRange 0x1001 0x1002 [1, 2, 3, 4], .place 0x1000 (.page 7) 1]

/-- The page is carried to the second slot, and then both slots are to have other pointers. -/
def newPointers : List Action :=
  [.propagate 0x1000 2, .applyDpp .empty 0x1000 4 [some 5, some 6, some 7, some 8], .place 0x1002 .atomic 0]

theorem run_drops_no_override_newPointers :
    (∀ a ∈ pageOverPointers ++ newPointers, a.adds = true) ∧
      (((Store.empty .zero).run pageOverPointers).get 0x1000).kinds.page = true ∧
      (((Store.empty .zero).run (pageOverPointers ++ newPointers)).get 0x1000).kinds.page = true ∧
      (((Store.empty .zero).run (pageOverPointers ++ newPointers)).get 0x1000).dpp = ⟨1, 2, 3, 4⟩ := by
  have hadds : ∀ a ∈ pageOverPointers ++ newPointers, a.adds = true := by decide
  obtain ⟨hkinds, hpointers⟩ := Store.run_drops_no_override (.empty .zero) pageOverPointers newPointers hadds 0x1000
  exact ⟨hadds, rfl, hkinds.page rfl, hpointers rfl rfl⟩

end Lift166
