import Lift166.Proofs.Runs

/-!
# Refused actions

An action that is refused changes nothing: the store that comes with the refusal has the same table and the same
default pointers. Most actions are checked before anything is written. An extension is the exception, since it may place
two overrides one after the other and each placement is checked by itself; but all of them have the same span, so if any
is refused the first one is.

When an action is refused is said apart from what the action does, by `Action.Faulty`.
-/

namespace Lift166

/-! ## What is refused -/

/-- The action fails; or the user leaves out an answer; or the answer is that no table was restored. -/
def Action.Refused (s : Store) : Action → Prop
  | place addr overlay span => ∃ e, s.place addr overlay span = .error e
  | setCustomDpp addr values => ∃ e, s.setCustomDpp addr values = .error e
  | setCustomDppRange first last values => ∃ e, s.setCustomDppRange first last values = .error e
  | setDefaultDpp values => ∃ e, s.setDefaultDpp values = .error e
  | propagate _ _ => False
  | lift l i addr => ∃ e, (l.lift s i addr).answer = .error e
  | applyPage _ _ _ answers => firstAnswer answers = none
  | applySegment _ _ _ answers => firstAnswer answers = none
  | applyBank _ _ _ => False
  | applyDpp _ _ _ answers => (askPointers 0 4 answers).2 = none
  | clear => False
  | deserialize bytes => ∃ e, s.deserialize bytes = .error e
  | loadStateMap view =>
    (∃ e, Lift166.loadStateMap s view = .error e) ∨
      ∃ result, Lift166.loadStateMap s view = .ok result ∧ result.loaded = false

/-- The extension has something to place, and its span does not fit a byte. -/
def Extension.Overlong (ext : Extension) : Prop :=
  ext.register = none ∧ (∀ name, ext.kind ≠ .named name) ∧ (ext.count < 1 ∨ 256 < ext.count)

/-- The instruction makes no sense, or its override cannot be placed. -/
def Instruction.Unliftable (i : Instruction) (v : Variant) (s : Store) (addr : Int) : Prop :=
  if i.family = .ext then ∀ ext, i.operand? .ext = some (.extension ext) → ext.Overlong
  else ∃ e, emit v s addr i = .error e

/-- What is kept is no sequence of whole records. -/
def Metadata.Faulty : Metadata → Prop
  | bytes data => data.length % 36 ≠ 0
  | text data => (∃ c ∈ data.toList, 256 ≤ c.toNat) ∨ data.toList.length % 36 ≠ 0

/-- The view keeps no table that can be restored. -/
def View.Faulty (view : View) : Prop :=
  ∀ kept, view.get? stateKey = some kept → kept.Faulty

/-- Something is wrong with the arguments of the action. -/
def Action.Faulty (s : Store) : Action → Prop
  | place _ _ span => span < 0 ∨ 255 < span
  | setCustomDpp _ values | setCustomDppRange _ _ values | setDefaultDpp values => values.length ≠ 4
  | lift l i addr => i.Unliftable l.variant s addr
  | applyPage _ _ _ answers | applySegment _ _ _ answers => ∀ value rest, answers ≠ some value :: rest
  | applyDpp _ _ _ answers => ∀ a b c d rest, answers ≠ some a :: some b :: some c :: some d :: rest
  | deserialize bytes => bytes.length % 36 ≠ 0
  | loadStateMap view => view.Faulty
  | propagate _ _ | applyBank _ _ _ | clear => False

/-! ## Stores -/

theorem Store.tryPlace_refused (s : Store) (addr : Int) (overlay : Overlay) {span : Int}
    (h : span < 0 ∨ 255 < span) : s.tryPlace addr overlay span = (.error (.spanRange span), s) :=
  dif_neg (by omega)

theorem Store.place_fails_iff (s : Store) (addr : Int) (overlay : Overlay) (span : Int) :
    (∃ e, s.place addr overlay span = .error e) ↔ span < 0 ∨ 255 < span := by
  rw [place_eq]
  by_cases hspan : 0 ≤ span ∧ span < 256
  · rw [dif_pos hspan]
    constructor
    · rintro ⟨e, ⟨⟩⟩
    · omega
  · rw [dif_neg hspan]
    constructor
    · omega
    · exact fun _ => ⟨_, rfl⟩

theorem DppVector.ofInts_fails_iff (values : List Int) : (∃ e, ofInts values = .error e) ↔ values.length ≠ 4 := by
  rcases values with _ | ⟨a, _ | ⟨b, _ | ⟨c, _ | ⟨d, _ | ⟨extra, rest⟩⟩⟩⟩⟩ <;> simp [ofInts]

/-- Without a vector, a change that needs one is not made. -/
theorem Store.tryPointers_refused {α : Type} (s : Store) {values : List Int} (change : DppVector → α × Store)
    (h : values.length ≠ 4) : (s.tryPointers values change).2 = s := by
  obtain ⟨e, he⟩ := (DppVector.ofInts_fails_iff values).2 h
  rw [tryPointers, he]

/-- A change that needs a vector fails just when there is none. -/
theorem DppVector.map_ofInts_fails_iff {α : Type} (values : List Int) (f : DppVector → α) :
    (∃ e, (ofInts values).map f = .error e) ↔ values.length ≠ 4 := by
  rw [← ofInts_fails_iff]
  cases ofInts values with
  | error e => exact ⟨fun _ => ⟨e, rfl⟩, fun _ => ⟨e, rfl⟩⟩
  | ok dpp =>
    constructor
    · rintro ⟨e, ⟨⟩⟩
    · rintro ⟨e, ⟨⟩⟩

theorem Store.tryDeserialize_refused (s : Store) {bytes : List UInt8} (h : bytes.length % 36 ≠ 0) :
    s.tryDeserialize bytes = (.error (.malformed bytes.length), s) :=
  if_neg h

theorem Store.deserialize_fails_iff (s : Store) (bytes : List UInt8) :
    (∃ e, s.deserialize bytes = .error e) ↔ bytes.length % 36 ≠ 0 := by
  rw [deserialize_eq, recordSize]
  by_cases hlength : bytes.length % 36 = 0
  · rw [if_pos hlength]
    constructor
    · rintro ⟨e, ⟨⟩⟩
    · exact fun h => absurd hlength h
  · rw [if_neg hlength]
    exact ⟨fun _ => hlength, fun _ => ⟨_, rfl⟩⟩

/-! ## Extensions -/

theorem Extension.overlays_eq_nil_iff (ext : Extension) : ext.overlays = [] ↔ ∃ name, ext.kind = .named name := by
  obtain ⟨kind, count, value, register⟩ := ext
  cases kind <;> simp [overlays, ExtensionKind.hasRegisterBank, ExtensionKind.hasSegment, ExtensionKind.hasPage]

/-- Placing several overrides is refused as a whole: where their span does not fit a byte, at the first of them. -/
theorem Store.placeAll_fails_iff {s t : Store} {addr span : Int} {overlays : List Overlay} {e : StoreError} :
    s.placeAll addr span overlays = (.error e, t) ↔
      overlays ≠ [] ∧ (span < 0 ∨ 255 < span) ∧ e = .spanRange span ∧ t = s := by
  by_cases hspan : 0 ≤ span ∧ span < 256
  · have hfits : span = (⟨span.toNat, by omega⟩ : Fin 256).val := by
      simp only
      omega
    obtain ⟨t', hplaced, -⟩ := s.placeAll_ok addr hfits overlays
    rw [hplaced]
    constructor
    · rintro ⟨⟩
    · rintro ⟨-, hbad, -⟩
      omega
  · cases overlays with
    | nil =>
      constructor
      · rintro ⟨⟩
      · rintro ⟨hnil, -⟩
        exact absurd rfl hnil
    | cons overlay rest =>
      rw [placeAll, s.tryPlace_refused addr overlay (by omega)]
      constructor
      · rintro ⟨⟩
        exact ⟨List.cons_ne_nil _ _, by omega, rfl, rfl⟩
      · rintro ⟨-, -, rfl, rfl⟩
        rfl

theorem liftExtension_overlong {s : Store} {addr : Int} {i : Instruction} {ext : Extension}
    (hoperand : i.operand? .ext = some (.extension ext)) (h : ext.Overlong) :
    liftExtension s addr i = ⟨.error (.store (.spanRange (ext.count - 1))), s, []⟩ := by
  obtain ⟨hreg, hkind, hcount⟩ := h
  have hsome : ext.overlays ≠ [] := by
    intro hnil
    obtain ⟨name, hname⟩ := ext.overlays_eq_nil_iff.1 hnil
    exact hkind name hname
  have hplaced : s.placeAll (addr + i.length) (ext.count - 1) ext.overlays = (.error (.spanRange (ext.count - 1)), s) :=
    Store.placeAll_fails_iff.2 ⟨hsome, by omega, rfl, rfl⟩
  simp only [liftExtension, Instruction.operand, hoperand, hreg, hplaced]

theorem liftExtension_succeeds {s : Store} {addr : Int} {i : Instruction} {ext : Extension}
    (hoperand : i.operand? .ext = some (.extension ext)) (h : ¬ ext.Overlong) :
    ∃ lifted, (liftExtension s addr i).answer = .ok lifted := by
  cases hreg : ext.register with
  | some r => exact ⟨_, by rw [liftExtension_register s hoperand hreg]⟩
  | none =>
    rcases hplaced : s.placeAll (addr + i.length) (ext.count - 1) ext.overlays with ⟨⟨e⟩ | ⟨⟨⟩⟩, t⟩
    · -- a placement that fails makes the extension overlong
      obtain ⟨hsome, hspan, -⟩ := Store.placeAll_fails_iff.1 hplaced
      refine absurd ⟨hreg, fun name hname => ?_, by omega⟩ h
      exact hsome (ext.overlays_eq_nil_iff.2 ⟨name, hname⟩)
    · exact ⟨_, by rw [liftExtension_immediate hoperand hreg hplaced]⟩

/-- An extension is lifted, or it fails and the store is kept. -/
theorem liftExtension_outcome (s : Store) (addr : Int) (i : Instruction) :
    (∃ e, liftExtension s addr i = ⟨.error e, s, []⟩ ∧
      ∀ ext, i.operand? .ext = some (.extension ext) → ext.Overlong) ∨
    ∃ lifted, (liftExtension s addr i).answer = .ok lifted ∧
      ∃ ext, i.operand? .ext = some (.extension ext) ∧ ¬ ext.Overlong := by
  by_cases hext : ∃ ext, i.operand? .ext = some (.extension ext)
  · obtain ⟨ext, hoperand⟩ := hext
    by_cases hover : ext.Overlong
    · refine .inl ⟨_, liftExtension_overlong hoperand hover, fun other hother => ?_⟩
      rw [hoperand] at hother
      cases hother
      exact hover
    · obtain ⟨lifted, hlifted⟩ := liftExtension_succeeds hoperand hover
      exact .inr ⟨lifted, hlifted, ext, hoperand, hover⟩
  · -- the operand is missing, or is of another sort
    have hnone : ∀ ext, i.operand? .ext ≠ some (.extension ext) := fun ext h => hext ⟨ext, h⟩
    refine .inl ?_
    unfold liftExtension Instruction.operand
    cases hoperand : i.operand? .ext with
    | none => exact ⟨_, rfl, fun ext h => by cases h⟩
    | some op =>
      cases op with
      | extension ext => exact absurd hoperand (hnone ext)
      | _ => exact ⟨_, rfl, fun ext h => by cases h⟩

theorem liftPlain_outcome (v : Variant) (s : Store) (addr : Int) (i : Instruction) :
    (∃ e, liftPlain v s addr i = ⟨.error e, s, []⟩ ∧ ∃ cause, emit v s addr i = .error cause) ∨
      ∃ lifted, (liftPlain v s addr i).answer = .ok lifted ∧ ∃ code, emit v s addr i = .ok code := by
  unfold liftPlain
  cases emit v s addr i with
  | error e => exact .inl ⟨_, rfl, e, rfl⟩
  | ok code => exact .inr ⟨_, rfl, code, rfl⟩

/-- Any instruction, put together in whatever way, is lifted, or it fails and the store is kept. -/
theorem Lifter.lift_outcome (l : Lifter) (s : Store) (i : Instruction) (addr : Int) :
    ((∃ e, (l.lift s i addr).answer = .error e) ∧ (l.lift s i addr).store = s ∧ i.Unliftable l.variant s addr) ∨
      ((∃ lifted, (l.lift s i addr).answer = .ok lifted) ∧ ¬ i.Unliftable l.variant s addr) := by
  unfold Instruction.Unliftable
  by_cases hext : i.family = .ext
  · simp only [lift, hext, if_true]
    rcases liftExtension_outcome s addr i with ⟨e, houtcome, hfaulty⟩ | ⟨lifted, hlifted, ext, hoperand, hfits⟩
    · rw [houtcome]
      exact .inl ⟨⟨e, rfl⟩, rfl, hfaulty⟩
    · exact .inr ⟨⟨lifted, hlifted⟩, fun hfaulty => hfits (hfaulty ext hoperand)⟩
  · have hplain : l.lift s i addr =
        { liftPlain l.variant s addr i with
          events := (if l.trace then [Event.lifting addr i] else []) ++ (liftPlain l.variant s addr i).events } := by
      unfold lift
      cases hfamily : i.family
      case ext => exact absurd hfamily hext
      all_goals rfl
    rw [hplain, if_neg hext]
    rcases liftPlain_outcome l.variant s addr i with ⟨e, houtcome, hcause⟩ | ⟨lifted, hlifted, code, hcode⟩
    · rw [houtcome]
      exact .inl ⟨⟨e, rfl⟩, rfl, hcause⟩
    · refine .inr ⟨⟨lifted, hlifted⟩, ?_⟩
      rintro ⟨cause, hcause⟩
      rw [hcode] at hcause
      cases hcause

/-! ## The table with a view -/

theorem Metadata.toBytes_text_of_large {data : String} (h : ∃ c ∈ data.toList, 256 ≤ c.toNat) :
    (text data).toBytes = .error .notLatin1 := by
  refine if_neg fun hlatin => ?_
  obtain ⟨c, hc, hlarge⟩ := h
  have hsmall := of_decide_eq_true (List.all_eq_true.1 hlatin c hc)
  omega

/-- What is kept is at fault just when it stands for no bytes, or for bytes that are no whole records. -/
theorem Metadata.faulty_iff (kept : Metadata) :
    kept.Faulty ↔ ∀ bytes, kept.toBytes = .ok bytes → bytes.length % 36 ≠ 0 := by
  cases kept with
  | bytes data =>
    constructor
    · rintro h bytes ⟨⟩
      exact h
    · exact fun h => h data rfl
  | text data =>
    by_cases hlarge : ∃ c ∈ data.toList, 256 ≤ c.toNat
    · rw [toBytes_text_of_large hlarge]
      constructor
      · rintro - bytes ⟨⟩
      · exact fun _ => .inl hlarge
    · have hlatin : data.toList.all (fun c => c.toNat < 256) = true := by
        simpa using hlarge
      rw [Faulty, toBytes, if_pos hlatin]
      constructor
      · rintro h bytes ⟨⟩
        rw [List.length_map]
        exact h.resolve_left hlarge
      · intro h
        have hlength := h _ rfl
        rw [List.length_map] at hlength
        exact .inr hlength

/-- A table is restored from a view; or the view is at fault, and the answer says so and comes with the old store. -/
theorem tryLoadStateMap_outcome (s : Store) (view : View) :
    (((∃ e, (tryLoadStateMap s view).answer = .error e) ∨
        ∃ after, (tryLoadStateMap s view).answer = .ok (false, after)) ∧
      (tryLoadStateMap s view).store = s ∧ view.Faulty) ∨
    (∃ after, (tryLoadStateMap s view).answer = .ok (true, after)) ∧ ¬ view.Faulty := by
  unfold tryLoadStateMap View.Faulty
  cases hkept : view.get? stateKey with
  | none => exact .inl ⟨.inr ⟨view, rfl⟩, rfl, fun kept h => by cases h⟩
  | some kept =>
    simp only [Option.some.injEq, forall_eq', Metadata.faulty_iff]
    cases hbytes : kept.toBytes with
    | error e => exact .inl ⟨.inl ⟨e, rfl⟩, rfl, fun bytes h => by cases h⟩
    | ok bytes =>
      simp only [Except.ok.injEq, forall_eq', restore]
      by_cases hlength : bytes.length % 36 = 0
      · rw [Store.tryDeserialize, recordSize, if_pos hlength]
        exact .inr ⟨⟨_, rfl⟩, fun hodd => hodd hlength⟩
      · rw [s.tryDeserialize_refused hlength]
        exact .inl ⟨.inr ⟨view, rfl⟩, rfl, hlength⟩

/-- No table is restored just when the answer says so. -/
theorem loadStateMap_refused_iff (s : Store) (view : View) :
    ((∃ e, loadStateMap s view = .error e) ∨ ∃ result, loadStateMap s view = .ok result ∧ result.loaded = false) ↔
      ¬ ∃ after, (tryLoadStateMap s view).answer = .ok (true, after) := by
  unfold loadStateMap
  generalize tryLoadStateMap s view = outcome
  obtain ⟨e | ⟨_ | _, after⟩, store, events⟩ := outcome
  · refine iff_of_true (.inl ⟨e, rfl⟩) ?_
    rintro ⟨after, ⟨⟩⟩
  · refine iff_of_true (.inr ⟨_, rfl, rfl⟩) ?_
    rintro ⟨after, ⟨⟩⟩
  · refine iff_of_false ?_ fun h => h ⟨after, rfl⟩
    rintro (⟨e, ⟨⟩⟩ | ⟨result, ⟨⟩, ⟨⟩⟩)

/-! ## Commands -/

theorem firstAnswer_eq_none_iff (answers : List (Option Int)) :
    firstAnswer answers = none ↔ ∀ value rest, answers ≠ some value :: rest := by
  rcases answers with _ | ⟨_ | value, rest⟩ <;> simp [firstAnswer]

theorem askPointers_four_eq_none_iff (answers : List (Option Int)) :
    (askPointers 0 4 answers).2 = none ↔
      ∀ a b c d rest, answers ≠ some a :: some b :: some c :: some d :: rest := by
  rcases answers with _ | ⟨_ | a, _ | ⟨_ | b, _ | ⟨_ | c, _ | ⟨_ | d, rest⟩⟩⟩⟩ <;> simp [askPointers]

/-! ## All actions -/

namespace Action

/-- An action is refused just when something is wrong with it. -/
theorem refused_iff_faulty (s : Store) (a : Action) : a.Refused s ↔ a.Faulty s := by
  cases a with
  | place addr overlay span => exact s.place_fails_iff addr overlay span
  | setCustomDpp addr values =>
    rw [Refused, s.setCustomDpp_eq]
    exact DppVector.map_ofInts_fails_iff values _
  | setCustomDppRange first last values =>
    rw [Refused, s.setCustomDppRange_eq]
    exact DppVector.map_ofInts_fails_iff values _
  | setDefaultDpp values =>
    rw [Refused, s.setDefaultDpp_eq]
    exact DppVector.map_ofInts_fails_iff values _
  | lift l i addr =>
    rcases l.lift_outcome s i addr with ⟨hfails, -, hfaulty⟩ | ⟨⟨lifted, hlifted⟩, hfine⟩
    · exact iff_of_true hfails hfaulty
    · refine iff_of_false ?_ hfine
      rintro ⟨e, he⟩
      rw [hlifted] at he
      cases he
  | applyPage view start length answers => exact firstAnswer_eq_none_iff answers
  | applySegment view start length answers => exact firstAnswer_eq_none_iff answers
  | applyDpp view start length answers => exact askPointers_four_eq_none_iff answers
  | deserialize bytes => exact s.deserialize_fails_iff bytes
  | loadStateMap view =>
    refine (loadStateMap_refused_iff s view).trans ?_
    rcases tryLoadStateMap_outcome s view with ⟨hanswer, -, hfaulty⟩ | ⟨hloaded, hfine⟩
    · refine iff_of_true ?_ hfaulty
      rintro ⟨after, hafter⟩
      simp [hafter] at hanswer
    · exact iff_of_false (fun h => h hloaded) hfine
  | propagate | applyBank | clear => exact Iff.rfl

theorem perform_of_refused {s : Store} {a : Action} (h : a.Refused s) : a.perform s = s := by
  have hfaulty := (a.refused_iff_faulty s).1 h
  cases a with
  | place addr overlay span => rw [perform, s.tryPlace_refused addr overlay hfaulty]
  | setCustomDpp addr values => exact s.tryPointers_refused _ hfaulty
  | setCustomDppRange first last values => exact s.tryPointers_refused _ hfaulty
  | setDefaultDpp values => exact s.tryPointers_refused _ hfaulty
  | lift l i addr =>
    rcases l.lift_outcome s i addr with ⟨-, hkept, -⟩ | ⟨-, hfine⟩
    · exact hkept
    · exact absurd hfaulty hfine
  | applyPage view start length answers =>
    have hnone : firstAnswer answers = none := h
    simp only [perform, Lift166.applyPage, hnone, RangeResult.cancelled]
  | applySegment view start length answers =>
    have hnone : firstAnswer answers = none := h
    simp only [perform, Lift166.applySegment, hnone, RangeResult.cancelled]
  | applyDpp view start length answers =>
    rcases hasked : askPointers 0 4 answers with ⟨asked, values⟩
    have hnone : values = none := by
      have hsecond : (askPointers 0 4 answers).2 = none := h
      rw [hasked] at hsecond
      exact hsecond
    simp only [perform, Lift166.applyDpp, hasked, hnone, RangeResult.cancelled]
  | deserialize bytes => rw [perform, s.tryDeserialize_refused hfaulty]
  | loadStateMap view =>
    rcases tryLoadStateMap_outcome s view with ⟨-, hkept, -⟩ | ⟨-, hfine⟩
    · exact hkept
    · exact absurd hfaulty hfine
  | propagate | applyBank | clear => cases h

end Action

/-- **An action that is refused changes nothing.** Whatever store it meets and whatever it is made of, it is refused
just when something is wrong with it, and then the table and the default pointers are what they were. So it is for
an extension of two kinds that has a count out of range, for bytes that are no whole records, for the wrong number
of pointers on a range, and for a kept text with a character that is no byte. -/
theorem refused_action_changes_nothing (s : Store) :
    (∀ a : Action, (a.Refused s ↔ a.Faulty s) ∧ (a.Refused s → a.perform s = s)) ∧
    (∀ (l : Lifter) (i : Instruction) (addr : Int) (ext : Extension), i.family = .ext →
      i.operand? .ext = some (.extension ext) → ext.kind = .extsr ∨ ext.kind = .extpr → ext.register = none →
      ext.count < 1 ∨ 256 < ext.count →
      (l.lift s i addr).answer = .error (.store (.spanRange (ext.count - 1))) ∧ (l.lift s i addr).store = s) ∧
    (∀ bytes : List UInt8, bytes.length % 36 ≠ 0 →
      (Action.deserialize bytes).Refused s ∧ (Action.deserialize bytes).perform s = s) ∧
    (∀ first last values, values.length ≠ 4 →
      (Action.setCustomDppRange first last values).Refused s ∧
        (Action.setCustomDppRange first last values).perform s = s) ∧
    ∀ (view : View) (text : String) (c : Char), view.get? stateKey = some (.text text) → c ∈ text.toList →
      256 ≤ c.toNat → loadStateMap s view = .error .notLatin1 ∧ (Action.loadStateMap view).perform s = s := by
  have hfaulty : ∀ a : Action, a.Faulty s → a.Refused s ∧ a.perform s = s := by
    intro a ha
    have hrefused := (a.refused_iff_faulty s).2 ha
    exact ⟨hrefused, Action.perform_of_refused hrefused⟩
  refine ⟨fun a => ⟨a.refused_iff_faulty s, Action.perform_of_refused⟩, ?_, fun bytes => hfaulty (.deserialize bytes),
    fun first last values => hfaulty (.setCustomDppRange first last values), ?_⟩
  · intro l i addr ext hext hoperand hkind hreg hcount
    have hover : ext.Overlong := by
      refine ⟨hreg, fun name hname => ?_, hcount⟩
      rcases hkind with h | h <;> simp [h] at hname
    rw [(lift_extension l s hext).1, (lift_extension l s hext).2, liftExtension_overlong hoperand hover]
    exact ⟨rfl, rfl⟩
  · intro view text c hkept hc hlarge
    have hbytes : (Metadata.text text).toBytes = .error .notLatin1 := Metadata.toBytes_text_of_large ⟨c, hc, hlarge⟩
    refine ⟨?_, (hfaulty (.loadStateMap view) fun kept h => ?_).2⟩
    · simp only [loadStateMap, tryLoadStateMap, hkept, hbytes]
      rfl
    · rw [hkept] at h
      cases h
      exact .inl ⟨c, hc, hlarge⟩

/-- An extension of two kinds, put together by hand, that is to run for no instruction. -/
def extendNothing : Instruction :=
  ⟨0xDC, "extpr", .ext, 2, [(.ext, .extension ⟨.extpr, 0, some 3, none⟩)], [], none, none, none⟩

theorem refused_action_changes_nothing_extendNothing :
    ∃ s : Store, s = (Store.empty .zero).run carriedPage ∧ s.table.addresses = [0x1000, 0x1002] ∧
      ((⟨.tc, true⟩ : Lifter).lift s extendNothing 0x1000).answer = .error (.store (.spanRange (-1))) ∧
      ((⟨.tc, true⟩ : Lifter).lift s extendNothing 0x1000).store = s := by
  obtain ⟨-, hextension, -⟩ := refused_action_changes_nothing ((Store.empty .zero).run carriedPage)
  exact ⟨_, rfl, rfl,
    hextension ⟨.tc, true⟩ extendNothing 0x1000 ⟨.extpr, 0, some 3, none⟩ rfl rfl (.inr rfl) rfl (.inl (by decide))⟩

end Lift166
