import Lift166.Proofs.Countdown
import Lift166.Proofs.Refusals
import Lift166.Proofs.Relift
import Mathlib.Data.Set.Card

/-!
# Commands on a selection

A user selects bytes, and a range command edits the words that the selection touches. The end of the selection is
found in two ways: three of the commands stop before the address that follows it, and the one for the data page
pointers runs up to its last byte. Both come to the same words, which are described here by the bytes they share with
the selection. At each of them an override is added to what is in force; custom pointers replace it, and pass over
words where an override runs on.
-/

namespace Lift166

/-! ## The words of a selection -/

/-- The word at an even address shares a byte with the selection. -/
def Selects (start length e : Int) : Prop :=
  e % 2 = 0 ∧ (start ≤ e ∧ e < start + length ∨ start ≤ e + 1 ∧ e + 1 < start + length)

theorem mem_everySecond {first stop e : Int} :
    e ∈ everySecond first stop ↔ first ≤ e ∧ e < stop ∧ (e - first) % 2 = 0 := by
  unfold everySecond
  simp only [List.mem_map, List.mem_range]
  constructor
  · rintro ⟨k, hk, rfl⟩
    omega
  · rintro ⟨hfirst, hstop, heven⟩
    exact ⟨((e - first) / 2).toNat, by omega, by omega⟩

theorem nodup_everySecond (first stop : Int) : (everySecond first stop).Nodup := by
  have hinjective : Function.Injective fun k : Nat => first + 2 * (k : Int) := by
    intro j k hjk
    have heq : first + 2 * (j : Int) = first + 2 * (k : Int) := hjk
    omega
  exact List.nodup_range.map hinjective

theorem nodup_instructionSlots (start length : Int) : (instructionSlots start length).Nodup :=
  nodup_everySecond _ _

/-- The slots of a selection that is not empty are its words. -/
theorem mem_instructionSlots {start length e : Int} (hlength : 1 ≤ length) :
    e ∈ instructionSlots start length ↔ Selects start length e := by
  unfold instructionSlots Selects evenFloor
  rw [mem_everySecond]
  omega

/-- A list without repetition has as many members as the set it lists. -/
theorem encard_of_mem_iff {slots : List Int} (hnodup : slots.Nodup) {edited : Int → Prop}
    (hmem : ∀ e, e ∈ slots ↔ edited e) : (slots.length : ENat) = {e | edited e}.encard := by
  have hset : {e | edited e} = (slots.toFinset : Set Int) := by
    ext e
    simp only [Set.mem_ofPred_eq, Finset.mem_coe, List.mem_toFinset, hmem]
  rw [hset, Set.encard_coe_eq_coe_finsetCard, List.toFinset_card_of_nodup hnodup]

/-! ## Placing an override on slots -/

namespace Store

theorem get?_placeAlone (s : Store) (o : Overlay) {slots : List Int} (hnodup : slots.Nodup) (e : Int) :
    (s.placeAlone o slots).table.get? e =
      if e ∈ slots then some ((s.get e).overlay (byteOf 0) o) else s.table.get? e := by
  induction slots generalizing s with
  | nil => rfl
  | cons addr rest ih =>
    obtain ⟨hfresh, hrest⟩ := List.nodup_cons.1 hnodup
    have hstep := ih (s.put addr ((s.get addr).overlay (byteOf 0) o)) hrest
    rw [placeAlone, List.foldl_cons]
    refine hstep.trans ?_
    by_cases haddr : e = addr
    · rw [haddr, if_neg hfresh, if_pos List.mem_cons_self, get?_put, if_pos rfl]
    · rw [get_put_of_ne _ _ haddr, get?_put, if_neg haddr]
      simp only [List.mem_cons, haddr, false_or]

theorem defaultDpp_placeAlone (s : Store) (o : Overlay) (slots : List Int) :
    (s.placeAlone o slots).defaultDpp = s.defaultDpp := by
  induction slots generalizing s with
  | nil => rfl
  | cons addr rest ih => exact ih _

/-- Placing the same override on the same slots again changes nothing. -/
theorem placeAlone_placeAlone (s : Store) (o : Overlay) {slots : List Int} (hnodup : slots.Nodup) :
    (s.placeAlone o slots).placeAlone o slots = s.placeAlone o slots := by
  refine Store.ext_get? (fun e => ?_) (defaultDpp_placeAlone _ o slots)
  rw [get?_placeAlone _ o hnodup]
  by_cases he : e ∈ slots
  · have hplaced := s.get?_placeAlone o hnodup e
    rw [if_pos he] at hplaced
    rw [if_pos he, get, hplaced, Option.getD_some, Override.overlay_overlay_self]
  · rw [if_neg he]

/-! ## Filling slots with pointers -/

theorem isHeld_eq (s : Store) (addr : Int) : s.isHeld addr = (s.get addr).kinds.hasSpanned := by
  unfold isHeld get
  cases s.table.get? addr <;> rfl

/-- Giving pointers to an address that is not held does not change which addresses are held. -/
theorem isHeld_put_customDpp {s : Store} {addr : Int} (hfree : s.isHeld addr = false) (dpp : DppVector) (e : Int) :
    (s.put addr (.customDpp dpp)).isHeld e = s.isHeld e := by
  by_cases haddr : e = addr
  · rw [haddr, hfree, isHeld_eq, get_put_self]
    rfl
  · rw [isHeld_eq, isHeld_eq, get_put_of_ne _ _ haddr]

/-- Filling slots changes those that are not held, and counts them. -/
theorem fillDpp_eq (s : Store) (dpp : DppVector) (slots : List Int) :
    (s.fillDpp dpp slots).1 = (slots.filter fun e => !s.isHeld e).length ∧
      (∀ e, (s.fillDpp dpp slots).2.table.get? e =
        if e ∈ slots ∧ s.isHeld e = false then some (.customDpp dpp) else s.table.get? e) ∧
      (s.fillDpp dpp slots).2.defaultDpp = s.defaultDpp := by
  induction slots generalizing s with
  | nil =>
    refine ⟨rfl, fun e => ?_, rfl⟩
    rw [if_neg (fun h => List.not_mem_nil h.1)]
    rfl
  | cons addr rest ih =>
    cases hheld : s.isHeld addr with
    | true =>
      obtain ⟨hcount, hentries, hpointers⟩ := ih s
      simp only [fillDpp, hheld, if_true]
      refine ⟨?_, fun e => ?_, hpointers⟩
      · rw [hcount, List.filter_cons_of_neg (by simp only [hheld, Bool.not_true, Bool.false_eq_true, not_false_iff])]
      · rw [hentries]
        -- the slot that is passed over is no slot that is edited
        have hiff : e ∈ rest ∧ s.isHeld e = false ↔ e ∈ addr :: rest ∧ s.isHeld e = false := by
          constructor
          · exact fun h => ⟨List.mem_cons_of_mem _ h.1, h.2⟩
          · rintro ⟨hmem, hfree⟩
            rcases List.mem_cons.1 hmem with rfl | hrest
            · rw [hheld] at hfree
              cases hfree
            · exact ⟨hrest, hfree⟩
        simp only [hiff]
    | false =>
      obtain ⟨hcount, hentries, hpointers⟩ := ih (s.put addr (.customDpp dpp))
      simp only [isHeld_put_customDpp hheld] at hcount hentries
      simp only [fillDpp, hheld, Bool.false_eq_true, if_false]
      refine ⟨?_, fun e => ?_, hpointers⟩
      · rw [hcount, List.filter_cons_of_pos (by simp only [hheld, Bool.not_false]), List.length_cons]
      · rw [hentries, get?_put]
        by_cases haddr : e = addr
        · subst haddr
          simp only [List.mem_cons_self, hheld, and_self, if_true, ite_self]
        · simp only [List.mem_cons, haddr, false_or, if_false]

theorem isHeld_fillDpp (s : Store) (dpp : DppVector) (slots : List Int) (e : Int) :
    (s.fillDpp dpp slots).2.isHeld e = s.isHeld e := by
  have hentry := (s.fillDpp_eq dpp slots).2.1 e
  by_cases hedited : e ∈ slots ∧ s.isHeld e = false
  · rw [if_pos hedited] at hentry
    rw [hedited.2, isHeld_eq, get, hentry]
    rfl
  · rw [if_neg hedited] at hentry
    rw [isHeld_eq, isHeld_eq, get, hentry, get]

/-- Filling the same slots with the same pointers again changes nothing, and counts the same slots. -/
theorem fillDpp_fillDpp (s : Store) (dpp : DppVector) (slots : List Int) :
    (s.fillDpp dpp slots).2.fillDpp dpp slots = s.fillDpp dpp slots := by
  obtain ⟨hcount, hentries, hpointers⟩ := s.fillDpp_eq dpp slots
  obtain ⟨hcount', hentries', hpointers'⟩ := (s.fillDpp dpp slots).2.fillDpp_eq dpp slots
  simp only [isHeld_fillDpp] at hcount' hentries'
  refine Prod.ext (hcount'.trans hcount.symm) (Store.ext_get? (fun e => ?_) hpointers')
  rw [hentries', hentries]
  split <;> rfl

end Store

/-! ## What a command is to leave behind -/

/-- The page that an override sets, if it sets one. -/
def Overlay.page? : Overlay → Option Int
  | page value => some value
  | _ => none

/-- The segment that an override sets, if it sets one. -/
def Overlay.segment? : Overlay → Option Int
  | segment value => some value
  | _ => none

/-- The override has been added to an entry, for the instruction there alone: its kind joins the kinds, its value is
cut to its field and set, and all else is as before. -/
structure Overlay.AddedTo (o : Overlay) (before after : Override) : Prop where
  kinds : after.kinds = before.kinds.union o.kinds
  remaining : after.remaining.val = 0
  page : (after.page.val : Int) = (o.page?.map fun value => value % 0x400).getD (before.page.val : Int)
  segment : (after.segment.val : Int) = (o.segment?.map fun value => value % 0x100).getD (before.segment.val : Int)
  dpp : after.dpp = before.dpp

/-- The entry holds data page pointers, each cut to ten bits, and nothing else. -/
structure Override.PointersOnly (values : List Int) (entry : Override) : Prop where
  kinds : entry.kinds = .customDppOnly
  remaining : entry.remaining.val = 0
  page : entry.page.val = 0
  segment : entry.segment.val = 0
  dpp : entry.dpp.toList.map (fun page => (page.val : Int)) = values.map fun value => value % 0x400

/-- A command has edited some addresses of a store and no others, says how many, and has had the view analysed anew
once. Of an edited address, `edit` says what is to be there, given what was in force. -/
structure RangeResult.Edits (result : RangeResult) (s : Store) (view : View) (edited : Int → Prop)
    (edit : Override → Override → Prop) : Prop where
  done : ∀ e, edited e → ∃ entry, result.store.table.get? e = some entry ∧ edit (s.get e) entry
  kept : ∀ e, ¬edited e → result.store.table.get? e = s.table.get? e
  pointers : result.store.defaultDpp = s.defaultDpp
  count : (result.count : ENat) = {e | edited e}.encard
  reanalyzed : result.view = { view with reanalyzed := view.reanalyzed + 1 }

theorem Overlay.addedTo_overlay (o : Overlay) (entry : Override) : o.AddedTo entry (entry.overlay (byteOf 0) o) := by
  cases o with
  | page value => exact ⟨rfl, rfl, Page.ofInt_emod value, rfl, rfl⟩
  | segment value => exact ⟨rfl, rfl, rfl, Segment.ofInt_emod value, rfl⟩
  | registerBank => exact ⟨rfl, rfl, rfl, rfl, rfl⟩
  | atomic => exact ⟨rfl, rfl, rfl, rfl, rfl⟩

theorem Override.customDpp_pointersOnly (a b c d : Int) :
    (Override.customDpp ⟨.ofInt a, .ofInt b, .ofInt c, .ofInt d⟩).PointersOnly [a, b, c, d] := by
  refine ⟨rfl, rfl, rfl, rfl, ?_⟩
  simp only [customDpp, DppVector.toList, List.map_cons, List.map_nil, Page.ofInt_emod]

section Selection

variable (s : Store) (view : View) (start : Int) {length : Int}

/-- A command that places an override edits the words of the selection. -/
theorem applyOverlay_edits (hlength : 1 ≤ length) (asked : List Prompt) (o : Overlay) (report : Int → Event) :
    (applyOverlay s view start length asked o report).Edits s view (Selects start length) o.AddedTo := by
  have hnodup := nodup_instructionSlots start length
  have hmem : ∀ e, e ∈ instructionSlots start length ↔ Selects start length e :=
    fun _ => mem_instructionSlots hlength
  have hentries := s.get?_placeAlone o hnodup
  refine ⟨fun e he => ?_, fun e he => ?_, s.defaultDpp_placeAlone o _, encard_of_mem_iff hnodup hmem, rfl⟩
  · exact ⟨_, (hentries e).trans (if_pos ((hmem e).2 he)), o.addedTo_overlay _⟩
  · exact (hentries e).trans (if_neg fun h => he ((hmem e).1 h))

/-- Both ways to compute the end of a selection come to the same slots. -/
theorem everySecond_to_last (length : Int) :
    everySecond (evenFloor start) (start + length - 1 + 1) = instructionSlots start length := by
  rw [instructionSlots, Int.sub_add_cancel]

theorem applyDpp_answered (length a b c d : Int) (rest : List (Option Int)) :
    ∃ asked events, applyDpp s view start length (some a :: some b :: some c :: some d :: rest) =
      ⟨(s.fillDpp ⟨.ofInt a, .ofInt b, .ofInt c, .ofInt d⟩ (instructionSlots start length)).1, asked,
        (s.fillDpp ⟨.ofInt a, .ofInt b, .ofInt c, .ofInt d⟩ (instructionSlots start length)).2, view.reanalyze,
        events⟩ := by
  rw [← everySecond_to_last]
  exact ⟨_, _, rfl⟩

/-- The command for the data page pointers edits the words of the selection where nothing runs on. -/
theorem applyDpp_edits (hlength : 1 ≤ length) (a b c d : Int) (rest : List (Option Int)) :
    (applyDpp s view start length (some a :: some b :: some c :: some d :: rest)).Edits s view
      (fun e => Selects start length e ∧ (s.get e).kinds.hasSpanned = false)
      (fun _ entry => entry.PointersOnly [a, b, c, d]) := by
  obtain ⟨asked, events, hresult⟩ := applyDpp_answered s view start length a b c d rest
  obtain ⟨hcount, hentries, hpointers⟩ :=
    s.fillDpp_eq ⟨.ofInt a, .ofInt b, .ofInt c, .ofInt d⟩ (instructionSlots start length)
  have hedited : ∀ e, e ∈ instructionSlots start length ∧ s.isHeld e = false ↔
      Selects start length e ∧ (s.get e).kinds.hasSpanned = false := by
    intro e
    rw [mem_instructionSlots hlength, s.isHeld_eq]
  rw [hresult]
  refine ⟨fun e he => ?_, fun e he => ?_, hpointers, ?_, rfl⟩
  · exact ⟨_, (hentries e).trans (if_pos ((hedited e).2 he)), Override.customDpp_pointersOnly a b c d⟩
  · exact (hentries e).trans (if_neg fun h => he ((hedited e).1 h))
  · have hnodup := (nodup_instructionSlots start length).filter fun e => !s.isHeld e
    simp only [hcount]
    refine encard_of_mem_iff hnodup fun e => ?_
    rw [List.mem_filter, Bool.not_eq_true', hedited]

end Selection

/-! ## All commands -/

/-- The commands that work on a selection. -/
inductive RangeCommand
  /-- Places a page. -/
  | page
  /-- Places a segment. -/
  | segment
  /-- Places the extended register bank. -/
  | bank
  /-- Gives data page pointers. -/
  | dpp

namespace RangeCommand

/-- Runs a command with the answers of the user. -/
def apply (command : RangeCommand) (s : Store) (view : View) (start length : Int) (answers : List (Option Int)) :
    RangeResult :=
  match command with
  | page => applyPage s view start length answers
  | segment => applySegment s view start length answers
  | bank => applyBank s view start length
  | dpp => applyDpp s view start length answers

/-- The number of questions that a command asks. -/
def questions : RangeCommand → Nat
  | page | segment => 1
  | bank => 0
  | dpp => 4

/-- The user leaves out an answer to one of the questions. -/
def Cancelled (command : RangeCommand) (answers : List (Option Int)) : Prop :=
  ∃ k < command.questions, ∀ value, answers[k]? ≠ some (some value)

theorem firstAnswer_of_left_out {answers : List (Option Int)} (h : ∀ value, answers[0]? ≠ some (some value)) :
    firstAnswer answers = none := by
  refine (firstAnswer_eq_none_iff answers).2 fun value rest heq => ?_
  subst heq
  exact h value rfl

theorem askPointers_of_left_out {answers : List (Option Int)} {k : Nat} (hk : k < 4)
    (h : ∀ value, answers[k]? ≠ some (some value)) : (askPointers 0 4 answers).2 = none := by
  refine (askPointers_four_eq_none_iff answers).2 fun a b c d rest heq => ?_
  subst heq
  match k, hk with
  | 0, _ => exact h a rfl
  | 1, _ => exact h b rfl
  | 2, _ => exact h c rfl
  | 3, _ => exact h d rfl

/-- A command to which an answer is left out, be it the first or a later one, does nothing. -/
theorem apply_cancelled {command : RangeCommand} {answers : List (Option Int)} (h : command.Cancelled answers)
    (s : Store) (view : View) (start length : Int) :
    ∃ asked, command.apply s view start length answers = .cancelled s view asked := by
  obtain ⟨k, hk, hleft⟩ := h
  cases command with
  | bank => exact absurd hk (Nat.not_lt_zero k)
  | page =>
    obtain rfl : k = 0 := Nat.lt_one_iff.1 hk
    exact ⟨_, by rw [apply, applyPage, firstAnswer_of_left_out hleft]⟩
  | segment =>
    obtain rfl : k = 0 := Nat.lt_one_iff.1 hk
    exact ⟨_, by rw [apply, applySegment, firstAnswer_of_left_out hleft]⟩
  | dpp =>
    have hnone : (askPointers 0 4 answers).2 = none := askPointers_of_left_out hk hleft
    rcases hasked : askPointers 0 4 answers with ⟨asked, values⟩
    rw [hasked] at hnone
    obtain rfl : values = none := hnone
    exact ⟨asked, by simp only [apply, applyDpp, hasked]⟩

/-- With the same answers once more, a command leaves the store as it is and says the same. -/
theorem apply_again (command : RangeCommand) (s : Store) (view again : View) (start length : Int)
    (answers : List (Option Int)) :
    (command.apply (command.apply s view start length answers).store again start length answers).store =
        (command.apply s view start length answers).store ∧
      (command.apply (command.apply s view start length answers).store again start length answers).count =
        (command.apply s view start length answers).count := by
  have hplaced : ∀ o, (s.placeAlone o (instructionSlots start length)).placeAlone o (instructionSlots start length) =
      s.placeAlone o (instructionSlots start length) := fun o =>
    s.placeAlone_placeAlone o (nodup_instructionSlots start length)
  cases command with
  | page =>
    simp only [apply, applyPage]
    cases firstAnswer answers with
    | none => exact ⟨rfl, rfl⟩
    | some value => exact ⟨hplaced (.page value), rfl⟩
  | segment =>
    simp only [apply, applySegment]
    cases firstAnswer answers with
    | none => exact ⟨rfl, rfl⟩
    | some value => exact ⟨hplaced (.segment value), rfl⟩
  | bank => exact ⟨hplaced .registerBank, rfl⟩
  | dpp =>
    simp only [apply, applyDpp]
    rcases askPointers 0 4 answers with ⟨asked, _ | values⟩
    · exact ⟨rfl, rfl⟩
    · simp only
      cases DppVector.ofInts values with
      | error e => exact ⟨rfl, rfl⟩
      | ok dpp =>
        have hfilled := s.fillDpp_fillDpp dpp (everySecond (evenFloor start) (start + length - 1 + 1))
        exact ⟨congrArg Prod.snd hfilled, congrArg Prod.fst hfilled⟩

end RangeCommand

/-- **Range commands edit exactly the selected words.** Whatever the store, and wherever the selection starts, if it is
not empty: placing a page, a segment or the register bank adds that override, for the instruction there alone, to the
words that share a byte with the selection, and giving data page pointers replaces what is in force at those of them
where nothing runs on. Every other entry is kept, the number of edited words is returned, and the view is analysed
anew once. To run a command again with the same answers changes nothing further and returns the same number; and where
an answer is left out, nothing happens. -/
theorem range_commands_edit_selected_words (s : Store) (view : View) (start : Int) {length : Int}
    (hlength : 1 ≤ length) :
    (∀ page rest, (applyPage s view start length (some page :: rest)).Edits s view (Selects start length)
      (Overlay.page page).AddedTo) ∧
    (∀ segment rest, (applySegment s view start length (some segment :: rest)).Edits s view (Selects start length)
      (Overlay.segment segment).AddedTo) ∧
    (applyBank s view start length).Edits s view (Selects start length) Overlay.registerBank.AddedTo ∧
    (∀ a b c d rest, (applyDpp s view start length (some a :: some b :: some c :: some d :: rest)).Edits s view
      (fun e => Selects start length e ∧ (s.get e).kinds.hasSpanned = false)
      (fun _ entry => entry.PointersOnly [a, b, c, d])) ∧
    (∀ (command : RangeCommand) (answers : List (Option Int)) (again : View),
      (command.apply (command.apply s view start length answers).store again start length answers).store =
          (command.apply s view start length answers).store ∧
        (command.apply (command.apply s view start length answers).store again start length answers).count =
          (command.apply s view start length answers).count) ∧
    ∀ (command : RangeCommand) (answers : List (Option Int)), command.Cancelled answers →
      (command.apply s view start length answers).count = 0 ∧
        (command.apply s view start length answers).store = s ∧
        (command.apply s view start length answers).view = view := by
  refine ⟨fun page rest => applyOverlay_edits s view start hlength _ _ _,
    fun segment rest => applyOverlay_edits s view start hlength _ _ _, applyOverlay_edits s view start hlength _ _ _,
    fun a b c d rest => applyDpp_edits s view start hlength a b c d rest,
    fun command answers again => command.apply_again s view again start length answers, ?_⟩
  intro command answers hcancelled
  obtain ⟨asked, hresult⟩ := RangeCommand.apply_cancelled hcancelled s view start length
  rw [hresult]
  exact ⟨rfl, rfl, rfl⟩

/-- A selection from an odd address on, with a page placed in the middle of it. -/
theorem range_commands_edit_selected_words_odd :
    ∃ s, (Store.empty .zero).place 0x102 (.page 3) 0 = .ok s ∧ (1 : Int) ≤ 6 ∧
      (applyDpp s .empty 0x101 6 [some 4, some 5, some 6, some (-1)]).count = 3 ∧
      (applyDpp s .empty 0x101 6 [some 4, some 5, some 6, some (-1)]).Edits s .empty
        (fun e => Selects 0x101 6 e ∧ (s.get e).kinds.hasSpanned = false)
        (fun _ entry => entry.PointersOnly [4, 5, 6, -1]) ∧
      RangeCommand.dpp.Cancelled [some 4, none] ∧ (applyDpp s .empty 0x101 6 [some 4, none]).store = s := by
  obtain ⟨s, hs⟩ : ∃ s, (Store.empty .zero).place 0x102 (.page 3) 0 = .ok s := ⟨_, rfl⟩
  have hlength : (1 : Int) ≤ 6 := by decide
  have hcancelled : RangeCommand.dpp.Cancelled [some 4, none] := ⟨1, by decide, fun value h => by cases h⟩
  obtain ⟨-, -, -, hpointers, -, hleft⟩ := range_commands_edit_selected_words s .empty 0x101 hlength
  refine ⟨s, hs, hlength, ?_, hpointers 4 5 6 (-1) [], hcancelled, (hleft .dpp _ hcancelled).2.1⟩
  cases hs
  rfl

end Lift166
