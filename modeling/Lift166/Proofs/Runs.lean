import Lift166.Command
import Lift166.Proofs.Step
import Mathlib.Logic.Relation

/-!
# Runs of a store

A store is changed by its callers, by lifting, by the user's commands, and by restoring a saved table. An `Action` is
any of these with any arguments, and a run is a list of actions; an action that is refused leaves a store as well, and
the run goes on from there. Restoring apart, an action comes down to a few edits of single entries, listed by
`Store.Edit`; those that only add to what is there are the ones of `Store.Addition`. What holds of every store that a
run can reach is proved by going through the edits.
-/

namespace Lift166

/-! ## Actions -/

/-- Something that is done to a store. -/
inductive Action
  /-- An override is placed. -/
  | place (addr : Int) (overlay : Overlay) (span : Int)
  /-- Custom data page pointers replace an entry. -/
  | setCustomDpp (addr : Int) (values : List Int)
  /-- Custom data page pointers are given to a range. -/
  | setCustomDppRange (first last : Int) (values : List Int)
  /-- The data page pointers after reset are replaced. -/
  | setDefaultDpp (values : List Int)
  /-- A running override is carried on. -/
  | propagate (addr length : Int)
  /-- An instruction is lifted, be it decoded or put together by hand. -/
  | lift (l : Lifter) (i : Instruction) (addr : Int)
  /-- The user places a page on a selection. -/
  | applyPage (view : View) (start length : Int) (answers : List (Option Int))
  /-- The user places a segment on a selection. -/
  | applySegment (view : View) (start length : Int) (answers : List (Option Int))
  /-- The user places the extended register bank on a selection. -/
  | applyBank (view : View) (start length : Int)
  /-- The user gives data page pointers to a selection. -/
  | applyDpp (view : View) (start length : Int) (answers : List (Option Int))
  /-- Every entry is removed. -/
  | clear
  /-- A saved table is restored. -/
  | deserialize (bytes : List UInt8)
  /-- The table that a view keeps is restored. -/
  | loadStateMap (view : View)

namespace Action

/-- The store after an action, be it refused. -/
def perform (s : Store) : Action → Store
  | place addr overlay span => (s.tryPlace addr overlay span).2
  | setCustomDpp addr values => (s.trySetCustomDpp addr values).2
  | setCustomDppRange first last values => (s.trySetCustomDppRange first last values).2
  | setDefaultDpp values => (s.trySetDefaultDpp values).2
  | propagate addr length => (s.propagate addr length).2
  | lift l i addr => (l.lift s i addr).store
  | applyPage view start length answers => (Lift166.applyPage s view start length answers).store
  | applySegment view start length answers => (Lift166.applySegment s view start length answers).store
  | applyBank view start length => (Lift166.applyBank s view start length).store
  | applyDpp view start length answers => (Lift166.applyDpp s view start length answers).store
  | clear => s.clear
  | deserialize bytes => (s.tryDeserialize bytes).2
  | loadStateMap view => (tryLoadStateMap s view).store

/-- Whether the action restores a saved table. -/
def restores : Action → Bool
  | deserialize _ | loadStateMap _ => true
  | _ => false

end Action

/-- The store after a run of actions. -/
def Store.run (s : Store) (actions : List Action) : Store :=
  actions.foldl Action.perform s

/-! ## Edits -/

/-- The edits that actions are made of, with what has to hold where they are made. -/
inductive Store.Edit : Store → Store → Prop
  | overlay (s : Store) (addr : Int) (remaining : Fin 256) (overlay : Overlay) :
      Edit s (s.put addr ((s.get addr).overlay remaining overlay))
  | carry (s : Store) (addr next : Int) {current : Override} (here : s.table.get? addr = some current)
      (runs : current.runsOn = true) : Edit s (s.put next (current.carriedTo (s.get next) runs))
  | replace (s : Store) (addr : Int) (dpp : DppVector) : Edit s (s.put addr (.customDpp dpp))
  | clear (s : Store) : Edit s s.clear
  | reset (s : Store) (dpp : DppVector) : Edit s { s with defaultDpp := dpp }

/-- The edits that only add: an override is placed or carried on, and custom pointers are given to an address where
no override runs. -/
inductive Store.Addition : Store → Store → Prop
  | overlay (s : Store) (addr : Int) (remaining : Fin 256) (overlay : Overlay) :
      Addition s (s.put addr ((s.get addr).overlay remaining overlay))
  | carry (s : Store) (addr next : Int) {current : Override} (here : s.table.get? addr = some current)
      (runs : current.runsOn = true) : Addition s (s.put next (current.carriedTo (s.get next) runs))
  | fill (s : Store) (addr : Int) (dpp : DppVector) (free : s.isHeld addr = false) :
      Addition s (s.put addr (.customDpp dpp))

namespace Store

/-- The store is had by some edits, one after the other. -/
abbrev Edits : Store → Store → Prop :=
  Relation.ReflTransGen Edit

/-- The store is had by some additions, one after the other. -/
abbrev Additions : Store → Store → Prop :=
  Relation.ReflTransGen Addition

theorem Addition.edit {s t : Store} (h : s.Addition t) : s.Edit t := by
  cases h with
  | overlay addr remaining overlay => exact .overlay s addr remaining overlay
  | carry addr next here runs => exact .carry s addr next here runs
  | fill addr dpp free => exact .replace s addr dpp

theorem Additions.edits {s t : Store} (h : s.Additions t) : s.Edits t :=
  Relation.ReflTransGen.mono (fun _ _ => Addition.edit) _ _ h

theorem tryPlace_additions (s : Store) (addr : Int) (overlay : Overlay) (span : Int) :
    s.Additions (s.tryPlace addr overlay span).2 := by
  unfold tryPlace
  split
  · exact .single (.overlay s addr _ overlay)
  · exact .refl

/-- A change that needs pointers comes down to steps if it does so for every vector. -/
theorem tryPointers_steps {α : Type} {step : Store → Store → Prop} {s : Store} {change : DppVector → α × Store}
    (values : List Int) (h : ∀ dpp, Relation.ReflTransGen step s (change dpp).2) :
    Relation.ReflTransGen step s (s.tryPointers values change).2 := by
  unfold tryPointers
  split
  · next dpp _ => exact h dpp
  · exact .refl

theorem placeAll_additions (s : Store) (addr span : Int) (overlays : List Overlay) :
    s.Additions (s.placeAll addr span overlays).2 := by
  induction overlays generalizing s with
  | nil => exact .refl
  | cons overlay rest ih =>
    have hfirst := s.tryPlace_additions addr overlay span
    unfold placeAll
    split
    · next placed h =>
      rw [h] at hfirst
      exact hfirst.trans (ih placed)
    · next e kept h =>
      rw [h] at hfirst
      exact hfirst

theorem placeAlone_additions (s : Store) (overlay : Overlay) (slots : List Int) :
    s.Additions (s.placeAlone overlay slots) := by
  induction slots generalizing s with
  | nil => exact .refl
  | cons addr rest ih => exact (ih _).head (.overlay s addr _ overlay)

theorem fillDpp_additions (s : Store) (dpp : DppVector) (slots : List Int) :
    s.Additions (s.fillDpp dpp slots).2 := by
  induction slots generalizing s with
  | nil => exact .refl
  | cons addr rest ih =>
    unfold fillDpp
    split
    · exact ih s
    · next hfree => exact (ih _).head (.fill s addr dpp (Bool.eq_false_iff.2 hfree))

theorem propagate_additions (s : Store) (addr length : Int) : s.Additions (s.propagate addr length).2 := by
  unfold propagate
  split
  · exact .refl
  · next current hcurrent =>
    split
    · next hruns => exact .single (.carry s addr _ hcurrent hruns)
    · exact .refl

end Store

theorem liftExtension_additions (s : Store) (addr : Int) (i : Instruction) :
    s.Additions (liftExtension s addr i).store := by
  simp only [liftExtension]
  split
  · exact .refl
  · next ext _ =>
    split
    · exact .refl
    · have hplaced := s.placeAll_additions (addr + i.length) (ext.count - 1) ext.overlays
      split
      · next placed h =>
        rw [h] at hplaced
        exact hplaced
      · next e placed h =>
        rw [h] at hplaced
        exact hplaced
  · exact .refl

theorem liftPlain_additions (v : Variant) (s : Store) (addr : Int) (i : Instruction) :
    s.Additions (liftPlain v s addr i).store := by
  unfold liftPlain
  split
  · exact s.propagate_additions addr i.length
  · exact .refl

theorem lift_additions (l : Lifter) (s : Store) (i : Instruction) (addr : Int) :
    s.Additions (l.lift s i addr).store := by
  unfold Lifter.lift
  cases i.family
  case ext => exact liftExtension_additions s addr i
  all_goals exact liftPlain_additions l.variant s addr i

theorem applyOverlay_additions (s : Store) (view : View) (start length : Int) (asked : List Prompt)
    (overlay : Overlay) (report : Int → Event) :
    s.Additions (applyOverlay s view start length asked overlay report).store :=
  s.placeAlone_additions overlay (instructionSlots start length)

theorem applyPage_additions (s : Store) (view : View) (start length : Int) (answers : List (Option Int)) :
    s.Additions (applyPage s view start length answers).store := by
  simp only [applyPage]
  split
  · exact .refl
  · apply applyOverlay_additions

theorem applySegment_additions (s : Store) (view : View) (start length : Int) (answers : List (Option Int)) :
    s.Additions (applySegment s view start length answers).store := by
  simp only [applySegment]
  split
  · exact .refl
  · apply applyOverlay_additions

theorem applyDpp_additions (s : Store) (view : View) (start length : Int) (answers : List (Option Int)) :
    s.Additions (applyDpp s view start length answers).store := by
  unfold applyDpp
  split
  · exact .refl
  · split
    · exact .refl
    · apply Store.fillDpp_additions

namespace Action

/-- Whether the action only adds to what is in force: it replaces no entry that holds an override which runs on, and
removes none. -/
def adds : Action → Bool
  | place .. | setCustomDppRange .. | propagate .. | lift .. | applyPage .. | applySegment .. | applyBank ..
  | applyDpp .. => true
  | setCustomDpp .. | setDefaultDpp _ | clear | deserialize _ | loadStateMap _ => false

/-- Such an action comes down to additions. -/
theorem perform_additions {a : Action} (h : a.adds = true) (s : Store) : s.Additions (a.perform s) := by
  cases a with
  | place addr overlay span => exact s.tryPlace_additions addr overlay span
  | setCustomDppRange first last values => exact Store.tryPointers_steps values fun dpp => s.fillDpp_additions dpp _
  | propagate addr length => exact s.propagate_additions addr length
  | lift l i addr => exact lift_additions l s i addr
  | applyPage view start length answers => exact applyPage_additions s view start length answers
  | applySegment view start length answers => exact applySegment_additions s view start length answers
  | applyBank view start length => exact applyOverlay_additions s view start length [] .registerBank .bankApplied
  | applyDpp view start length answers => exact applyDpp_additions s view start length answers
  | setCustomDpp | setDefaultDpp | clear | deserialize | loadStateMap => cases h

/-- Restoring apart, an action comes down to edits. -/
theorem perform_edits {a : Action} (h : a.restores = false) (s : Store) : s.Edits (a.perform s) := by
  cases hadds : a.adds with
  | true => exact (perform_additions hadds s).edits
  | false =>
    cases a with
    | setCustomDpp addr values => exact Store.tryPointers_steps values fun dpp => .single (.replace s addr dpp)
    | setDefaultDpp values => exact Store.tryPointers_steps values fun dpp => .single (.reset s dpp)
    | clear => exact .single (.clear s)
    | deserialize | loadStateMap => cases h
    | _ => cases hadds

end Action

/-- A run that restores nothing comes down to edits. -/
theorem Store.run_edits (s : Store) {actions : List Action} (h : ∀ a ∈ actions, a.restores = false) :
    s.Edits (s.run actions) := by
  induction actions generalizing s with
  | nil => exact .refl
  | cons a rest ih =>
    rw [List.forall_mem_cons] at h
    exact (Action.perform_edits h.1 s).trans (ih (a.perform s) h.2)

/-! ## What every run keeps -/

/-- Four pointers, each a page. -/
def DppVector.InRange (v : DppVector) : Prop :=
  v.toList.length = 4 ∧ ∀ page ∈ v.toList, page.val ≤ 0x3FF

/-- The fields of an entry are within their ranges. -/
structure Override.InRange (entry : Override) : Prop where
  kinds : entry.kinds.toByte ≤ 0xFF
  remaining : entry.remaining.val ≤ 255
  page : entry.page.val ≤ 0x3FF
  segment : entry.segment.val ≤ 0xFF
  dpp : entry.dpp.InRange

theorem DppVector.inRange (v : DppVector) : v.InRange :=
  ⟨rfl, fun page _ => Nat.le_of_lt_succ page.isLt⟩

/-- The types of the fields hold the ranges: whatever integers an entry is made from, they are cut to them or
refused. -/
theorem Override.inRange (entry : Override) : entry.InRange where
  kinds := Nat.le_of_lt_succ entry.kinds.toByte_lt
  remaining := Nat.le_of_lt_succ entry.remaining.isLt
  page := Nat.le_of_lt_succ entry.page.isLt
  segment := Nat.le_of_lt_succ entry.segment.isLt
  dpp := entry.dpp.inRange

/-! ## What a run keeps that restores nothing -/

/-- Nothing is in an entry without the kind it belongs to. -/
structure Override.Coherent (entry : Override) : Prop where
  /-- The bits without a meaning are clear. -/
  reserved : entry.kinds.reserved = 0
  page : entry.page.val ≠ 0 → entry.kinds.page = true
  segment : entry.segment.val ≠ 0 → entry.kinds.segment = true
  dpp : entry.dpp ≠ .zero → entry.kinds.customDpp = true
  /-- Only kinds that run on have a count. -/
  running : 0 < entry.remaining.val → entry.kinds.hasSpanned = true

/-- Some kind with a meaning is in the set. -/
def KindSet.hasKind (k : KindSet) : Bool :=
  k.hasSpanned || k.customDpp

theorem KindSet.hasKind_of_hasSpanned {k : KindSet} (h : k.hasSpanned = true) : k.hasKind = true := by
  rw [hasKind, h, Bool.true_or]

theorem KindSet.hasSpanned_union (a : KindSet) {b : KindSet} (h : b.hasSpanned = true) :
    (a.union b).hasSpanned = true := by
  simp only [hasSpanned, union, Bool.or_eq_true] at h ⊢
  rcases h with ((h | h) | h) | h
  all_goals simp only [h, or_true, true_or]

/-- The persistent byte of a set with a kind and without meaningless bits. -/
theorem KindSet.toByte_bounds {k : KindSet} (hreserved : k.reserved = 0) (hkind : k.hasKind = true) :
    0 < k.toByte ∧ k.toByte ≤ 0x1F := by
  obtain ⟨register, segment, page, atomic, customDpp, reserved⟩ := k
  obtain rfl : reserved = 0 := hreserved
  revert register segment page atomic customDpp
  decide

namespace Override.Coherent

theorem none : Override.none.Coherent where
  reserved := rfl
  page h := absurd rfl h
  segment h := absurd rfl h
  dpp h := absurd rfl h
  running h := absurd h (Nat.lt_irrefl 0)

theorem customDpp (dpp : DppVector) : (Override.customDpp dpp).Coherent where
  reserved := rfl
  page h := absurd rfl h
  segment h := absurd rfl h
  dpp _ := rfl
  running h := absurd h (Nat.lt_irrefl 0)

variable {entry : Override}

/-- An entry stays coherent when kinds that run on are added to it, and a page or a segment along with its kind. -/
theorem widen (h : entry.Coherent) (added : KindSet) {wider : Override} (hspanned : added.hasSpanned = true)
    (hreserved : added.reserved = 0) (hkinds : wider.kinds = entry.kinds.union added)
    (hpage : wider.page = entry.page ∨ added.page = true)
    (hsegment : wider.segment = entry.segment ∨ added.segment = true) (hdpp : wider.dpp = entry.dpp) :
    wider.Coherent ∧ wider.kinds.hasSpanned = true := by
  have hwider : wider.kinds.hasSpanned = true := by
    rw [hkinds]
    exact KindSet.hasSpanned_union _ hspanned
  refine ⟨⟨?_, fun hne => ?_, fun hne => ?_, fun hne => ?_, fun _ => hwider⟩, hwider⟩
  · rw [hkinds, KindSet.union, h.reserved, hreserved]
    rfl
  · rcases hpage with heq | hadded
    · rw [hkinds, KindSet.union, h.page (heq ▸ hne), Bool.true_or]
    · rw [hkinds, KindSet.union, hadded, Bool.or_true]
  · rcases hsegment with heq | hadded
    · rw [hkinds, KindSet.union, h.segment (heq ▸ hne), Bool.true_or]
    · rw [hkinds, KindSet.union, hadded, Bool.or_true]
  · rw [hkinds, KindSet.union, h.dpp (hdpp ▸ hne), Bool.true_or]

theorem overlay (h : entry.Coherent) (remaining : Fin 256) (overlay : Overlay) :
    (entry.overlay remaining overlay).Coherent ∧ (entry.overlay remaining overlay).kinds.hasSpanned = true := by
  cases overlay with
  | page value => exact h.widen .pageOnly rfl rfl rfl (.inr rfl) (.inl rfl) rfl
  | segment value => exact h.widen .segmentOnly rfl rfl rfl (.inl rfl) (.inr rfl) rfl
  | registerBank => exact h.widen .registerOnly rfl rfl rfl (.inl rfl) (.inl rfl) rfl
  | atomic => exact h.widen .atomicOnly rfl rfl rfl (.inl rfl) (.inl rfl) rfl

/-- What is carried on comes with its kind, and what it meets keeps its own. -/
theorem carriedTo {current : Override} (h : entry.Coherent) (runs : current.runsOn = true) :
    (current.carriedTo entry runs).Coherent ∧ (current.carriedTo entry runs).kinds.hasSpanned = true := by
  refine h.widen current.kinds.spanned (hasSpanned_of_runsOn runs) rfl rfl ?_ ?_ rfl
  · by_cases hpage : current.kinds.page = true
    · exact .inr hpage
    · exact .inl (if_neg hpage)
  · by_cases hsegment : current.kinds.segment = true
    · exact .inr hsegment
    · exact .inl (if_neg hsegment)

end Override.Coherent

/-- The entry is not there for nothing, and what it holds comes with its kind. -/
structure Override.Accounted (entry : Override) : Prop where
  kinds : 0 < entry.kinds.toByte ∧ entry.kinds.toByte ≤ 0x1F
  page : entry.page.val ≠ 0 → entry.kinds.page = true
  segment : entry.segment.val ≠ 0 → entry.kinds.segment = true
  dpp : entry.dpp ≠ .zero → entry.kinds.customDpp = true
  running : 0 < entry.remaining.val → entry.kinds.hasSpanned = true

theorem Override.Coherent.accounted {entry : Override} (h : entry.Coherent) (hkind : entry.kinds.hasKind = true) :
    entry.Accounted :=
  ⟨KindSet.toByte_bounds h.reserved hkind, h.page, h.segment, h.dpp, h.running⟩

namespace Store

/-- Every entry is coherent and has a kind. -/
def Coherent (s : Store) : Prop :=
  ∀ addr entry, s.table.get? addr = some entry → entry.Coherent ∧ entry.kinds.hasKind = true

theorem Coherent.get {s : Store} (h : s.Coherent) (addr : Int) : (s.get addr).Coherent := by
  unfold Store.get
  cases hentry : s.table.get? addr with
  | none => exact .none
  | some entry => exact (h addr entry hentry).1

theorem Coherent.put {s : Store} (h : s.Coherent) (addr : Int) {entry : Override} (hentry : entry.Coherent)
    (hkind : entry.kinds.hasKind = true) : (s.put addr entry).Coherent := by
  intro other found hfound
  rw [get?_put] at hfound
  split at hfound
  · cases hfound
    exact ⟨hentry, hkind⟩
  · exact h other found hfound

/-- One edit keeps the store coherent. -/
theorem Edit.coherent {s t : Store} (hedit : s.Edit t) (h : s.Coherent) : t.Coherent := by
  cases hedit with
  | overlay addr remaining overlay =>
    obtain ⟨hentry, hspanned⟩ := (h.get addr).overlay remaining overlay
    exact h.put addr hentry (KindSet.hasKind_of_hasSpanned hspanned)
  | carry addr next here runs =>
    obtain ⟨hentry, hspanned⟩ := (h.get next).carriedTo runs
    exact h.put next hentry (KindSet.hasKind_of_hasSpanned hspanned)
  | replace addr dpp => exact h.put addr (.customDpp dpp) rfl
  | clear =>
    intro addr entry hentry
    cases hentry
  | reset dpp => exact h

/-- So do any number of them. -/
theorem Edits.coherent {s t : Store} (hedits : s.Edits t) (h : s.Coherent) : t.Coherent := by
  induction hedits with
  | refl => exact h
  | tail _ hedit ih => exact hedit.coherent ih

theorem empty_coherent (dpp : DppVector) : (empty dpp).Coherent := by
  intro addr entry hentry
  cases hentry

/-- **What holds of every store that can be reached.** A new store may be put through any actions with any
arguments, whether or not they are refused: the fields of every entry, and the default pointers, are within their
ranges. As long as no saved table is restored, each entry also has a kind, has no bits without a meaning, and holds
a page, a segment, pointers or a count only along with a kind that has one. -/
theorem run_keeps_entries_accounted (dpp : DppVector) (actions : List Action) :
    ((empty dpp).run actions).defaultDpp.InRange ∧
    (∀ addr entry, ((empty dpp).run actions).table.get? addr = some entry → entry.InRange) ∧
    ((∀ a ∈ actions, a.restores = false) →
      ∀ addr entry, ((empty dpp).run actions).table.get? addr = some entry → entry.Accounted) := by
  refine ⟨DppVector.inRange _, fun addr entry _ => entry.inRange, ?_⟩
  intro hplain addr entry hentry
  have hreached := ((empty dpp).run_edits hplain).coherent (empty_coherent dpp)
  obtain ⟨hcoherent, hkind⟩ := hreached addr entry hentry
  exact hcoherent.accounted hkind

end Store

/-- A page asked for with a span that is refused, then with one that is not, and carried on. -/
def carriedPage : List Action :=
  [.place 0x1000 (.page 7) 256, .place 0x1000 (.page (-1)) 2, .propagate 0x1000 2]

theorem run_keeps_entries_accounted_carriedPage :
    ∃ entry, ((Store.empty .zero).run carriedPage).table.get? 0x1002 = some entry ∧ entry.page.val = 0x3FF ∧
      entry.remaining.val = 1 ∧ entry.InRange ∧ entry.Accounted := by
  obtain ⟨-, hrange, haccounted⟩ := Store.run_keeps_entries_accounted .zero carriedPage
  exact ⟨_, rfl, rfl, rfl, hrange 0x1002 _ rfl, haccounted (by decide) 0x1002 _ rfl⟩

end Lift166
