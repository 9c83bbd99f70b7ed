import Lift166.Settings
import Lift166.Proofs.Numerals
import Mathlib.Data.Int.Bitwise
import Mathlib.Data.List.Basic

/-!
# The setting of the data page pointers

The data page pointers after reset are read from a text with four integers between commas. What the setting accepts is
said here without its reader: the parts between commas are literals with blanks around them, and there are four of them.
Each value is cut to ten bits, so that a store that is made with the result keeps it as it is.
-/

namespace Lift166

/-! ## Trimming -/

theorem dropWhile_blanks {core : List Char} (hne : core ≠ []) (hcore : ∀ c ∈ core, isBlank c = false)
    {front : List Char} (hfront : ∀ c ∈ front, isBlank c = true) (back : List Char) :
    (front ++ (core ++ back)).dropWhile isBlank = core ++ back := by
  rw [List.dropWhile_append_of_pos hfront]
  obtain ⟨c, rest, rfl⟩ := List.exists_cons_of_ne_nil hne
  exact List.dropWhile_cons_of_neg (by rw [hcore c List.mem_cons_self]; exact Bool.false_ne_true)

/-- Trimming takes the blanks away from both ends of a text without blanks. -/
theorem trimBlanks_eq {core text : List Char} (hne : core ≠ []) (hcore : ∀ c ∈ core, isBlank c = false)
    (h : Padded isBlank core text) : trimBlanks text = core := by
  obtain ⟨front, back, hfront, hback, rfl⟩ := h
  have hback' : ∀ c ∈ back.reverse, isBlank c = true := fun c hc => hback c (List.mem_reverse.1 hc)
  have hcore' : ∀ c ∈ core.reverse, isBlank c = false := fun c hc => hcore c (List.mem_reverse.1 hc)
  have hne' : core.reverse ≠ [] := fun hnil => hne (List.reverse_eq_nil_iff.1 hnil)
  have hrest := dropWhile_blanks hne' hcore' hback' []
  rw [List.append_nil] at hrest
  rw [trimBlanks, List.append_assoc, dropWhile_blanks hne hcore hfront, List.reverse_append, hrest,
    List.reverse_reverse]

/-- Nothing but blanks is trimmed. -/
theorem padded_trimBlanks (text : List Char) : Padded isBlank (trimBlanks text) text := by
  obtain ⟨rest, hrest⟩ : ∃ rest, rest = text.dropWhile isBlank := ⟨_, rfl⟩
  have hfront : ∀ c ∈ text.takeWhile isBlank, isBlank c = true := List.all_eq_true.1 List.all_takeWhile
  have hback : ∀ c ∈ rest.reverse.takeWhile isBlank, isBlank c = true := List.all_eq_true.1 List.all_takeWhile
  refine ⟨_, (rest.reverse.takeWhile isBlank).reverse, hfront, fun c hc => hback c (List.mem_reverse.1 hc), ?_⟩
  rw [trimBlanks, ← hrest, List.append_assoc, ← List.reverse_append, List.takeWhile_append_dropWhile,
    List.reverse_reverse, hrest, List.takeWhile_append_dropWhile]

theorem trimBlanks_isEmpty_iff (text : List Char) :
    (trimBlanks text).isEmpty = true ↔ ∀ c ∈ text, isBlank c = true := by
  rw [List.isEmpty_iff]
  constructor
  · intro hnil
    obtain ⟨front, back, hfront, hback, htext⟩ := padded_trimBlanks text
    rw [hnil, List.append_nil] at htext
    intro c hc
    rw [htext] at hc
    rcases List.mem_append.1 hc with hc | hc
    · exact hfront c hc
    · exact hback c hc
  · intro hblank
    rw [trimBlanks, List.dropWhile_eq_nil_iff.2 hblank]
    rfl

/-! ## Parts -/

/-- A part between commas is an integer literal, up to blanks around it. -/
def ReadsAs (part : List Char) (v : Int) : Prop :=
  ∃ core, Padded isBlank core part ∧ Literal core v

theorem readLiteral_trimBlanks_ok_iff (part : List Char) (v : Int) :
    readLiteral .marked (trimBlanks part) = .ok v ↔ ReadsAs part v := by
  constructor
  · intro h
    obtain ⟨core, hpadded, hliteral⟩ := (readLiteral_marked_ok_iff _ v).1 h
    exact ⟨core, hpadded.trans (fun _ => isBlank_of_isNumberBlank) (padded_trimBlanks part), hliteral⟩
  · rintro ⟨core, hpadded, hliteral⟩
    rw [trimBlanks_eq hliteral.ne_nil hliteral.not_blank hpadded]
    exact hliteral.read (.refl _ core)

theorem ReadsAs.readPage {part : List Char} {v : Int} (h : ReadsAs part v) : readPage part = .ok (.ofInt v) := by
  rw [Lift166.readPage, (readLiteral_trimBlanks_ok_iff part v).2 h]

/-- A part that is no literal is refused. -/
theorem readPage_of_not_readsAs {part : List Char} (h : ∀ v, ¬ReadsAs part v) :
    ∃ e, readPage part = .error (.badValue e) := by
  unfold readPage
  cases hread : readLiteral .marked (trimBlanks part) with
  | error e => exact ⟨e, rfl⟩
  | ok v => exact absurd ((readLiteral_trimBlanks_ok_iff part v).1 hread) (h v)

theorem splitCommas_eq (raw : List Char) : splitCommas raw = raw.splitOn ',' := by
  induction raw with
  | nil => rfl
  | cons c rest ih =>
    rw [splitCommas, List.splitOn_cons_eq_if_modifyHead, ih]
    have hsome := List.splitOn_ne_nil ',' rest
    cases hparts : rest.splitOn ',' with
    | nil => exact absurd hparts hsome
    | cons part parts => rfl

theorem length_splitOn_comma (raw : List Char) : (raw.splitOn ',').length = raw.count ',' + 1 := by
  induction raw with
  | nil => rfl
  | cons c rest ih =>
    rw [List.splitOn_cons_eq_if_modifyHead, List.count_cons]
    by_cases hc : (c == ',') = true
    · rw [if_pos hc, if_pos hc, List.length_cons, ih]
    · rw [if_neg hc, if_neg hc, List.length_modifyHead, ih]

/-- Parts hold no commas. -/
theorem ReadsAs.not_comma {part : List Char} {v : Int} (h : ReadsAs part v) : ',' ∉ part := by
  obtain ⟨core, ⟨front, back, hfront, hback, rfl⟩, hliteral⟩ := h
  have hcomma : ¬isBlank ',' = true := by decide
  intro hmem
  rcases List.mem_append.1 hmem with hmem | hmem
  · rcases List.mem_append.1 hmem with hmem | hmem
    · exact hcomma (hfront ',' hmem)
    · exact hliteral.not_comma hmem
  · exact hcomma (hback ',' hmem)

theorem readPage_cases (part : List Char) :
    (∃ v, ReadsAs part v ∧ readPage part = .ok (.ofInt v)) ∨
      (∀ v, ¬ReadsAs part v) ∧ ∃ e, readPage part = .error (.badValue e) := by
  by_cases h : ∃ v, ReadsAs part v
  · obtain ⟨v, hv⟩ := h
    exact .inl ⟨v, hv, hv.readPage⟩
  · have hnone : ∀ v, ¬ReadsAs part v := fun v hv => h ⟨v, hv⟩
    exact .inr ⟨hnone, readPage_of_not_readsAs hnone⟩

/-! ## The setting -/

section Pointers

variable {raw a b c d : List Char}

theorem readDpp_of_blank (hraw : ∀ c ∈ raw, isBlank c = true) : readDpp raw = .ok .zero := by
  rw [readDpp, if_pos ((trimBlanks_isEmpty_iff raw).2 hraw)]

theorem not_isEmpty_of_not_blank (hraw : ∃ c ∈ raw, isBlank c = false) : ¬(trimBlanks raw).isEmpty = true := by
  obtain ⟨c, hc, hblank⟩ := hraw
  intro hempty
  rw [(trimBlanks_isEmpty_iff raw).1 hempty c hc] at hblank
  cases hblank

theorem readDpp_of_count (hraw : ∃ c ∈ raw, isBlank c = false) (hcount : raw.count ',' ≠ 3) :
    readDpp raw = .error (.valueCount (String.ofList raw)) := by
  have hlength := length_splitOn_comma raw
  rw [readDpp, if_neg (not_isEmpty_of_not_blank hraw), splitCommas_eq]
  split
  · next a b c d hparts =>
    rw [hparts] at hlength
    exact absurd (Nat.succ.inj hlength).symm hcount
  · rfl

/-- Three commas make four parts. -/
theorem exists_four_parts (hcount : raw.count ',' = 3) : ∃ a b c d, raw.splitOn ',' = [a, b, c, d] := by
  refine List.length_eq_four.1 ?_
  rw [length_splitOn_comma, hcount]

/-- A text of four parts is read part by part: it has a comma, and so it is not blank. -/
theorem readDpp_of_parts (hparts : raw.splitOn ',' = [a, b, c, d]) :
    readDpp raw = do
      let dpp0 ← readPage a
      let dpp1 ← readPage b
      let dpp2 ← readPage c
      let dpp3 ← readPage d
      return ⟨dpp0, dpp1, dpp2, dpp3⟩ := by
  have hlength := length_splitOn_comma raw
  rw [hparts] at hlength
  have hcomma : ',' ∈ raw := by
    rw [← List.count_pos_iff]
    simp only [List.length_cons, List.length_nil] at hlength
    omega
  have hraw : ∃ c ∈ raw, isBlank c = false := ⟨',', hcomma, by decide⟩
  rw [readDpp, if_neg (not_isEmpty_of_not_blank hraw), splitCommas_eq, hparts]

theorem readDpp_of_readsAs (hparts : raw.splitOn ',' = [a, b, c, d]) {p q r s : Int} (ha : ReadsAs a p)
    (hb : ReadsAs b q) (hc : ReadsAs c r) (hd : ReadsAs d s) :
    readDpp raw = .ok ⟨.ofInt p, .ofInt q, .ofInt r, .ofInt s⟩ := by
  rw [readDpp_of_parts hparts, ha.readPage, hb.readPage, hc.readPage, hd.readPage]
  rfl

/-- Where one of four parts is no literal, the first such part is refused. -/
theorem readDpp_of_not_readsAs (hparts : raw.splitOn ',' = [a, b, c, d])
    (hbad : ∃ part ∈ raw.splitOn ',', ∀ v, ¬ReadsAs part v) : ∃ e, readDpp raw = .error (.badValue e) := by
  rw [readDpp_of_parts hparts]
  rcases readPage_cases a with ⟨p, hp, ha⟩ | ⟨-, e, ha⟩
  · rcases readPage_cases b with ⟨q, hq, hb⟩ | ⟨-, e, hb⟩
    · rcases readPage_cases c with ⟨r, hr, hc⟩ | ⟨-, e, hc⟩
      · rcases readPage_cases d with ⟨s, hs, hd⟩ | ⟨-, e, hd⟩
        · obtain ⟨part, hmem, hnone⟩ := hbad
          rw [hparts] at hmem
          simp only [List.mem_cons, List.not_mem_nil, or_false] at hmem
          rcases hmem with rfl | rfl | rfl | rfl
          · exact absurd hp (hnone p)
          · exact absurd hq (hnone q)
          · exact absurd hr (hnone r)
          · exact absurd hs (hnone s)
        · exact ⟨e, by rw [ha, hb, hc, hd]; rfl⟩
      · exact ⟨e, by rw [ha, hb, hc]; rfl⟩
    · exact ⟨e, by rw [ha, hb]; rfl⟩
  · exact ⟨e, by rw [ha]; rfl⟩

end Pointers

/-- The pointers of the settings are those of their text; the switch has no part in them. -/
theorem Settings.read_some (raw : String) (trace : Option String) :
    Settings.read (some raw) trace =
      (readDpp raw.toList).map fun dpp => ⟨dpp, trace.any fun switch => readSwitch switch.toList⟩ := by
  simp only [Settings.read]
  cases readDpp raw.toList with
  | error e => rfl
  | ok dpp =>
    cases trace with
    | none => rfl
    | some switch => rfl

theorem Settings.read_of_pointers {raw : String} {dpp : DppVector} (h : readDpp raw.toList = .ok dpp)
    (trace : Option String) :
    ∃ settings, Settings.read (some raw) trace = .ok settings ∧ settings.defaultDpp = dpp := by
  rw [Settings.read_some, h]
  exact ⟨_, rfl, rfl⟩

theorem Settings.read_of_error {raw : String} {e : SettingsError} (h : readDpp raw.toList = .error e)
    (trace : Option String) : Settings.read (some raw) trace = .error e := by
  rw [Settings.read_some, h]
  rfl

/-- With three commas, the settings are refused if one of the parts is no literal, and accepted otherwise. -/
theorem Settings.read_of_three_commas {raw : String} (hcount : raw.toList.count ',' = 3) (trace : Option String) :
    ((∃ part ∈ raw.toList.splitOn ',', ∀ v, ¬ReadsAs part v) ↔
      ∃ cause, Settings.read (some raw) trace = .error (.badValue cause)) ∧
    ((∀ part ∈ raw.toList.splitOn ',', ∃ v, ReadsAs part v) ↔
      ∃ settings, Settings.read (some raw) trace = .ok settings) := by
  obtain ⟨a, b, c, d, hparts⟩ := exists_four_parts hcount
  by_cases hbad : ∃ part ∈ raw.toList.splitOn ',', ∀ v, ¬ReadsAs part v
  · obtain ⟨cause, hread⟩ := readDpp_of_not_readsAs hparts hbad
    have hsettings := Settings.read_of_error hread trace
    refine ⟨iff_of_true hbad ⟨cause, hsettings⟩, iff_of_false ?_ ?_⟩
    · intro hall
      obtain ⟨part, hmem, hnone⟩ := hbad
      obtain ⟨v, hv⟩ := hall part hmem
      exact hnone v hv
    · rintro ⟨settings, hok⟩
      rw [hsettings] at hok
      cases hok
  · have hall : ∀ part ∈ raw.toList.splitOn ',', ∃ v, ReadsAs part v := by
      intro part hmem
      by_contra hnone
      exact hbad ⟨part, hmem, fun v hv => hnone ⟨v, hv⟩⟩
    have hfour := hall
    simp only [hparts, List.forall_mem_cons] at hfour
    obtain ⟨⟨p, ha⟩, ⟨q, hb⟩, ⟨r, hc⟩, ⟨s, hd⟩, -⟩ := hfour
    obtain ⟨settings, hsettings, -⟩ := Settings.read_of_pointers (readDpp_of_readsAs hparts ha hb hc hd) trace
    refine ⟨iff_of_false hbad ?_, iff_of_true hall ⟨settings, hsettings⟩⟩
    rintro ⟨cause, hrefused⟩
    rw [hsettings] at hrefused
    cases hrefused

/-! ## Ten bits -/

/-- To keep the ten low bits of an integer, be it negative, is to take its remainder. -/
theorem land_pageMask (v : Int) : Int.land v 0x3FF = v % 0x400 := by
  cases v with
  | ofNat m =>
    have hmod : m &&& 0x3FF = m % 0x400 := Nat.and_two_pow_sub_one_eq_mod m 10
    exact congrArg Int.ofNat hmod
  | negSucc m =>
    have hlt : m % 0x400 < 0x400 := Nat.mod_lt m (by decide)
    have hdiff : Nat.ldiff 0x3FF m = 0x400 - (m % 0x400 + 1) := by
      -- bit by bit: below the tenth, what the number below does not have
      refine Nat.eq_of_testBit_eq fun k => ?_
      have hmask : Nat.testBit 0x3FF k = decide (k < 10) := Nat.testBit_two_pow_sub_one 10 k
      have hmod : Nat.testBit (m % 0x400) k = (decide (k < 10) && m.testBit k) := Nat.testBit_mod_two_pow m 10 k
      have hrest : Nat.testBit (0x400 - (m % 0x400 + 1)) k = (decide (k < 10) && !Nat.testBit (m % 0x400) k) :=
        Nat.testBit_two_pow_sub_succ (n := 10) hlt k
      rw [Nat.testBit_ldiff, hmask, hrest, hmod]
      cases decide (k < 10) <;> rfl
    have hland : Int.land (Int.negSucc m) 0x3FF = (Nat.ldiff 0x3FF m : Nat) := rfl
    rw [hland, hdiff]
    omega

/-- The pointers of a vector as integers. -/
def DppVector.values (v : DppVector) : List Int :=
  v.toList.map fun page => (page.val : Int)

theorem DppVector.values_ofInt (p q r s : Int) :
    DppVector.values ⟨.ofInt p, .ofInt q, .ofInt r, .ofInt s⟩ = [p, q, r, s].map fun v => Int.land v 0x3FF := by
  simp only [values, toList, List.map_cons, List.map_nil, Page.ofInt_emod, land_pageMask]

/-- A vector comes back from its pointers, since none of them is cut. -/
theorem DppVector.ofInts_values (v : DppVector) : DppVector.ofInts v.values = .ok v := by
  simp only [values, toList, List.map_cons, List.map_nil, ofInts, Page.ofInt_val]

theorem DppVector.values_bounds (v : DppVector) : ∀ value ∈ v.values, 0 ≤ value ∧ value ≤ 0x3FF := by
  intro value hvalue
  obtain ⟨page, -, rfl⟩ := List.mem_map.1 hvalue
  have := page.isLt
  omega

/-! ## Written settings -/

/-- A part between commas is a plainly written integer, up to blanks around it. -/
def WrittenAs (part : List Char) (v : Int) : Prop :=
  ∃ core, Padded isBlank core part ∧ Signed Numeral core v

theorem WrittenAs.readsAs {part : List Char} {v : Int} (h : WrittenAs part v) : ReadsAs part v := by
  obtain ⟨core, hpadded, hwritten⟩ := h
  exact ⟨core, hpadded, literal_of_numeral hwritten⟩

/-- Four written integers, joined by commas, are read as they were written. -/
theorem readDpp_of_written {raw : List Char} {parts : List (List Char)} {values : List Int} (hfour : values.length = 4)
    (hwritten : List.Forall₂ WrittenAs parts values) (hraw : raw = [','].intercalate parts) :
    ∃ dpp, readDpp raw = .ok dpp ∧ dpp.values = values.map fun v => Int.land v 0x3FF := by
  obtain ⟨p, q, r, s, rfl⟩ := List.length_eq_four.1 hfour
  obtain _ | ⟨ha, _ | ⟨hb, _ | ⟨hc, _ | ⟨hd, _ | _⟩⟩⟩⟩ := hwritten
  rename_i a b c d
  have hcommas : ∀ part ∈ [a, b, c, d], ',' ∉ part := by
    simp only [List.forall_mem_cons]
    exact ⟨ha.readsAs.not_comma, hb.readsAs.not_comma, hc.readsAs.not_comma, hd.readsAs.not_comma, nofun⟩
  have hparts : raw.splitOn ',' = [a, b, c, d] := by
    rw [hraw, List.splitOn_intercalate ',' hcommas (List.cons_ne_nil _ _)]
  exact ⟨_, readDpp_of_readsAs hparts ha.readsAs hb.readsAs hc.readsAs hd.readsAs, DppVector.values_ofInt p q r s⟩

/-- **The setting of the data page pointers.** Four integers of any sign and size, each plainly written with blanks
around it, and joined by commas, are read as their ten low bits in two's complement. An unset or blank variable gives
zeros. Any other text is refused if it does not have exactly three commas, or if one of the parts between them is no
integer literal, and is accepted otherwise. What is read lies in the range of pages, and a store that is made with it
has it as its default pointers. -/
theorem default_pointers_read (trace : Option String) :
    (∀ (parts : List (List Char)) (values : List Int) (raw : String), values.length = 4 →
      List.Forall₂ WrittenAs parts values → raw.toList = [','].intercalate parts →
      ∃ settings, Settings.read (some raw) trace = .ok settings ∧
        settings.defaultDpp.values = values.map fun v => Int.land v 0x3FF) ∧
    (∃ settings, Settings.read none trace = .ok settings ∧ settings.defaultDpp.values = [0, 0, 0, 0]) ∧
    (∀ raw : String, (∀ c ∈ raw.toList, isBlank c = true) →
      ∃ settings, Settings.read (some raw) trace = .ok settings ∧ settings.defaultDpp.values = [0, 0, 0, 0]) ∧
    (∀ raw : String, (∃ c ∈ raw.toList, isBlank c = false) →
      (raw.toList.count ',' ≠ 3 → Settings.read (some raw) trace = .error (.valueCount raw)) ∧
      (raw.toList.count ',' = 3 →
        ((∃ part ∈ raw.toList.splitOn ',', ∀ v, ¬ReadsAs part v) ↔
          ∃ cause, Settings.read (some raw) trace = .error (.badValue cause)) ∧
        ((∀ part ∈ raw.toList.splitOn ',', ∃ v, ReadsAs part v) ↔
          ∃ settings, Settings.read (some raw) trace = .ok settings))) ∧
    ∀ dpp settings, Settings.read dpp trace = .ok settings →
      (∀ value ∈ settings.defaultDpp.values, 0 ≤ value ∧ value ≤ 0x3FF) ∧
      ∃ store, (DppVector.ofInts settings.defaultDpp.values).map Store.empty = .ok store ∧
        store.defaultDpp = settings.defaultDpp := by
  refine ⟨fun parts values raw hfour hwritten hraw => ?_, ?_, fun raw hblank => ?_, fun raw hraw => ⟨fun hcount => ?_,
    fun hcount => ?_⟩, fun dpp settings _ => ⟨settings.defaultDpp.values_bounds, ?_⟩⟩
  · obtain ⟨dpp, hread, hvalues⟩ := readDpp_of_written hfour hwritten hraw
    obtain ⟨settings, hsettings, rfl⟩ := Settings.read_of_pointers hread trace
    exact ⟨settings, hsettings, hvalues⟩
  · exact ⟨_, rfl, rfl⟩
  · obtain ⟨settings, hsettings, hzero⟩ := Settings.read_of_pointers (readDpp_of_blank hblank) trace
    refine ⟨settings, hsettings, ?_⟩
    rw [hzero]
    rfl
  · have hread := readDpp_of_count hraw hcount
    rw [String.ofList_toList] at hread
    exact Settings.read_of_error hread trace
  · exact Settings.read_of_three_commas hcount trace
  · rw [DppVector.ofInts_values]
    exact ⟨_, rfl, rfl⟩

/-- A negative integer, a marked one in mixed case and blanks of two kinds; a blank text; a text with two commas; and one
with a part that starts with a zero. -/
theorem default_pointers_read_mixed :
    (List.Forall₂ WrittenAs [[' ', '-', '1'], ['+', '0', 'X', '0', 'a', 'F', ' '], ['0', 'b', '1', '0', '1'],
        ['\t', '4', '2']] [-1, 175, 5, 42] ∧
      ∃ settings, Settings.read (some " -1,+0X0aF ,0b101,\t42") none = .ok settings ∧
        settings.defaultDpp.values = [0x3FF, 175, 5, 42]) ∧
    (∃ settings, Settings.read (some " \t ") none = .ok settings ∧ settings.defaultDpp.values = [0, 0, 0, 0]) ∧
    Settings.read (some "1,2,3") none = .error (.valueCount "1,2,3") ∧
    (∃ cause, Settings.read (some "1,2,3,08") none = .error (.badValue cause)) := by
  obtain ⟨hwritten, -, hblank, hrefused, -⟩ := default_pointers_read none
  have hparts : List.Forall₂ WrittenAs [[' ', '-', '1'], ['+', '0', 'X', '0', 'a', 'F', ' '],
      ['0', 'b', '1', '0', '1'], ['\t', '4', '2']] [-1, 175, 5, 42] := by
    have hblanks : ∀ text : List Char, text.all isBlank = true → ∀ c ∈ text, isBlank c = true :=
      fun _ => List.all_eq_true.1
    refine .cons ⟨['-', '1'], ⟨[' '], [], hblanks _ rfl, hblanks _ rfl, rfl⟩, .minus (.decimal 1 (by decide))⟩ ?_
    refine .cons ⟨['+', '0', 'X', '0', 'a', 'F'], ⟨[], [' '], hblanks _ rfl, hblanks _ rfl, rfl⟩, ?_⟩ ?_
    · exact .plus (.marked 175 1 .upperX rfl)
    refine .cons ⟨['0', 'b', '1', '0', '1'], .refl _ _, .plain (.marked 5 0 .b rfl)⟩ ?_
    exact .cons ⟨['4', '2'], ⟨['\t'], [], hblanks _ rfl, hblanks _ rfl, rfl⟩, .plain (.decimal 42 (by decide))⟩ .nil
  have hzero : ∀ v, ¬ReadsAs ['0', '8'] v := by
    intro v hv
    have hread := (readLiteral_trimBlanks_ok_iff _ v).2 hv
    cases hread
  refine ⟨⟨hparts, ?_⟩, hblank " \t " (List.all_eq_true.1 rfl), (hrefused "1,2,3" ⟨'1', by decide, by decide⟩).1 (by decide), ?_⟩
  · obtain ⟨settings, hsettings, hvalues⟩ := hwritten _ _ " -1,+0X0aF ,0b101,\t42" rfl hparts rfl
    refine ⟨settings, hsettings, hvalues.trans ?_⟩
    simp only [List.map_cons, List.map_nil, land_pageMask]
    rfl
  · have hbad := (hrefused "1,2,3,08" ⟨'1', by decide, by decide⟩).2 (by decide)
    exact hbad.1.1 ⟨['0', '8'], by decide, hzero⟩

end Lift166
