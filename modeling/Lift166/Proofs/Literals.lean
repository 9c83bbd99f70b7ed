import Lift166.Number.Literal
import Mathlib.Data.List.TakeWhile
import Mathlib.Data.Nat.Digits.Defs

/-!
# The grammar of integer literals

What a reader of integer literals accepts, said as a grammar: an optional sign, and then either decimal digits or a
base mark with digits of that base, where single underscores may stand between digits. The value of the digits is the
positional one. `readLiteral_marked_ok_iff` says that the reader accepts a text just when it is a literal with blanks
around it, and that it gives the literal's value.
-/

namespace Lift166

/-! ## Texts with blanks around them -/

/-- The text is `core` with characters of a class around it. -/
def Padded (isPad : Char → Bool) (core text : List Char) : Prop :=
  ∃ front back, (∀ c ∈ front, isPad c = true) ∧ (∀ c ∈ back, isPad c = true) ∧ text = front ++ core ++ back

theorem Padded.refl (isPad : Char → Bool) (text : List Char) : Padded isPad text text :=
  ⟨[], [], fun _ h => absurd h List.not_mem_nil, fun _ h => absurd h List.not_mem_nil,
    (List.append_nil _).symm⟩

/-- Padding within padding is padding. -/
theorem Padded.trans {inner outer : Char → Bool} (hpad : ∀ c, inner c = true → outer c = true)
    {core mid text : List Char} (h : Padded inner core mid) (h' : Padded outer mid text) : Padded outer core text := by
  obtain ⟨front, back, hfront, hback, rfl⟩ := h
  obtain ⟨front', back', hfront', hback', rfl⟩ := h'
  refine ⟨front' ++ front, back ++ back', fun c hc => ?_, fun c hc => ?_, by simp only [List.append_assoc]⟩
  · rcases List.mem_append.1 hc with hc | hc
    · exact hfront' c hc
    · exact hpad c (hfront c hc)
  · rcases List.mem_append.1 hc with hc | hc
    · exact hpad c (hback c hc)
    · exact hback' c hc

/-! ## The grammar -/

/-- The character is a digit of the base, with the given value. -/
def IsDigit (base : Nat) (c : Char) (d : Nat) : Prop :=
  digitValue? c = some d ∧ d < base

/-- Digits of a base, with single underscores between them, and their values. -/
inductive DigitRun (base : Nat) : List Char → List Nat → Prop
  | last {c : Char} {d : Nat} (digit : IsDigit base c d) : DigitRun base [c] [d]
  | next {c : Char} {d : Nat} {cs : List Char} {ds : List Nat} (digit : IsDigit base c d)
      (rest : DigitRun base cs ds) : DigitRun base (c :: cs) (d :: ds)
  | underscore {c : Char} {d : Nat} {cs : List Char} {ds : List Nat} (digit : IsDigit base c d)
      (rest : DigitRun base cs ds) : DigitRun base (c :: '_' :: cs) (d :: ds)

/-- The number with the given digits, the first of which counts most. -/
def numberOf (base : Nat) (ds : List Nat) : Nat :=
  Nat.ofDigits base ds.reverse

/-- The marks that choose a base. -/
inductive BaseMark : Char → Nat → Prop
  | x : BaseMark 'x' 16
  | upperX : BaseMark 'X' 16
  | o : BaseMark 'o' 8
  | upperO : BaseMark 'O' 8
  | b : BaseMark 'b' 2
  | upperB : BaseMark 'B' 2

/-- Texts for natural numbers. Decimal digits are limited in number, and start with a zero only if the number is zero;
a zero and a base mark stand before the digits of another base, and an underscore may follow the mark. -/
inductive Magnitude : List Char → Nat → Prop
  | decimal {cs : List Char} {ds : List Nat} (run : DigitRun 10 cs ds) (short : ds.length ≤ 4300)
      (leading : ds.head? = some 0 → numberOf 10 ds = 0) : Magnitude cs (numberOf 10 ds)
  | marked {zero mark : Char} {base : Nat} {cs : List Char} {ds : List Nat} (isZero : decimalDigit? zero = some 0)
      (hmark : BaseMark mark base) (run : DigitRun base cs ds) : Magnitude (zero :: mark :: cs) (numberOf base ds)
  | markedUnderscore {zero mark : Char} {base : Nat} {cs : List Char} {ds : List Nat}
      (isZero : decimalDigit? zero = some 0) (hmark : BaseMark mark base) (run : DigitRun base cs ds) :
      Magnitude (zero :: mark :: '_' :: cs) (numberOf base ds)

/-- Texts for integers, made from texts for natural numbers by an optional sign. -/
inductive Signed (unsigned : List Char → Nat → Prop) : List Char → Int → Prop
  | plain {cs : List Char} {n : Nat} (h : unsigned cs n) : Signed unsigned cs n
  | plus {cs : List Char} {n : Nat} (h : unsigned cs n) : Signed unsigned ('+' :: cs) n
  | minus {cs : List Char} {n : Nat} (h : unsigned cs n) : Signed unsigned ('-' :: cs) (-n)

theorem Signed.mono {p q : List Char → Nat → Prop} (hpq : ∀ cs n, p cs n → q cs n) {cs : List Char} {v : Int}
    (h : Signed p cs v) : Signed q cs v := by
  cases h with
  | plain h => exact .plain (hpq _ _ h)
  | plus h => exact .plus (hpq _ _ h)
  | minus h => exact .minus (hpq _ _ h)

/-- An integer literal and its value. -/
def Literal (cs : List Char) (v : Int) : Prop :=
  Signed Magnitude cs v

/-! ## Characters -/

theorem isDigitOf_iff {base : Nat} {c : Char} : isDigitOf base c = true ↔ ∃ d, IsDigit base c d := by
  unfold isDigitOf IsDigit
  cases digitValue? c with
  | none => simp
  | some d => simp

theorem IsDigit.ne_none {base : Nat} {c : Char} {d : Nat} (h : IsDigit base c d) : digitValue? c ≠ none := by
  rw [h.1]
  exact Option.some_ne_none d

theorem IsDigit.ne_underscore {base : Nat} {c : Char} {d : Nat} (h : IsDigit base c d) : c ≠ '_' := by
  rintro rfl
  exact h.ne_none (by decide +kernel)

/-- No digit stands among the code points of the blanks. -/
theorem zeroDigits_apart : ∀ first ∈ zeroDigits, 0x20 < first ∧ (first + 10 ≤ 0x85 ∨ 0xA0 < first) ∧
    (first + 10 ≤ 0x1680 ∨ 0x1680 < first) ∧ (first + 10 ≤ 0x2000 ∨ 0x3000 < first) := by
  decide

theorem isBlank_code {c : Char} (h : isBlank c = true) :
    c.toNat ≤ 0x20 ∨ (0x85 ≤ c.toNat ∧ c.toNat ≤ 0xA0) ∨ c.toNat = 0x1680 ∨ (0x2000 ≤ c.toNat ∧ c.toNat ≤ 0x3000) := by
  simp only [isBlank, Bool.or_eq_true, Bool.and_eq_true, decide_eq_true_eq, beq_iff_eq] at h
  omega

/-- A blank is no digit, of whatever script and base. -/
theorem digitValue?_of_isBlank {c : Char} (h : isBlank c = true) : digitValue? c = none := by
  have hcode := isBlank_code h
  have hdecimal : decimalDigit? c = none := by
    unfold decimalDigit?
    rw [Option.map_eq_none_iff, List.find?_eq_none]
    intro first hfirst
    have hapart := zeroDigits_apart first hfirst
    simp only [Bool.and_eq_true, decide_eq_true_eq]
    omega
  have hletter : ∀ first last : Char, 0x20 < first.toNat → last.toNat < 0x85 → ¬(first ≤ c ∧ c ≤ last) := by
    rintro first last hfirst hlast ⟨hlow, hhigh⟩
    have hlow : first.toNat ≤ c.toNat := UInt32.le_iff_toNat_le.1 hlow
    have hhigh : c.toNat ≤ last.toNat := UInt32.le_iff_toNat_le.1 hhigh
    omega
  have hsmall := hletter 'a' 'z' (by decide) (by decide)
  have hcapital := hletter 'A' 'Z' (by decide) (by decide)
  simp only [digitValue?, hdecimal, if_neg hsmall, if_neg hcapital]

theorem isBlank_of_isNumberBlank {c : Char} (h : isNumberBlank c = true) : isBlank c = true :=
  (Bool.and_eq_true_iff.1 h).1

/-- A character that may stand around a number ends its digits. -/
theorem not_part_of_isNumberBlank {c : Char} (h : isNumberBlank c = true) (base : Nat) :
    (c == '_' || isDigitOf base c) = false := by
  have hnone := digitValue?_of_isBlank (isBlank_of_isNumberBlank h)
  have hunderscore : c ≠ '_' := by
    rintro rfl
    exact absurd h (by decide)
  rw [Bool.or_eq_false_iff, beq_eq_false_iff_ne]
  refine ⟨hunderscore, ?_⟩
  simp only [isDigitOf, hnone]

theorem baseOfMark?_eq_some_iff {mark : Char} {base : Nat} : baseOfMark? mark = some base ↔ BaseMark mark base := by
  constructor
  · intro h
    unfold baseOfMark? at h
    split at h
    all_goals cases h
    all_goals constructor
  · rintro ⟨⟩
    all_goals rfl

/-- A mark is no decimal digit and no underscore, so it ends a run of decimal digits. -/
theorem BaseMark.not_decimal {mark : Char} {base : Nat} (h : BaseMark mark base) :
    (mark == '_' || isDigitOf 10 mark) = false := by
  cases h
  all_goals decide +kernel

/-! ## Runs of digits -/

section Runs

variable {base : Nat}

theorem underscoresBetween_single {c : Char} (hc : c ≠ '_') : underscoresBetween [c] = true := by
  simp [underscoresBetween]

theorem underscoresBetween_underscore {c : Char} (hc : c ≠ '_') (rest : List Char) :
    underscoresBetween (c :: '_' :: rest) = underscoresBetween rest := by
  simp [underscoresBetween]

theorem underscoresBetween_next {c d : Char} (hc : c ≠ '_') (hd : d ≠ '_') (rest : List Char) :
    underscoresBetween (c :: d :: rest) = underscoresBetween (d :: rest) := by
  simp [underscoresBetween, hd]

namespace DigitRun

variable {cs : List Char} {ds : List Nat}

theorem exists_cons (h : DigitRun base cs ds) :
    ∃ c rest d rest', cs = c :: rest ∧ ds = d :: rest' ∧ IsDigit base c d := by
  cases h with
  | last digit => exact ⟨_, _, _, _, rfl, rfl, digit⟩
  | next digit rest => exact ⟨_, _, _, _, rfl, rfl, digit⟩
  | underscore digit rest => exact ⟨_, _, _, _, rfl, rfl, digit⟩

theorem underscoresBetween (h : DigitRun base cs ds) : Lift166.underscoresBetween cs = true := by
  induction h with
  | last digit => exact underscoresBetween_single digit.ne_underscore
  | next digit rest ih =>
    obtain ⟨c, tail, d, tail', rfl, -, hdigit⟩ := rest.exists_cons
    rw [underscoresBetween_next digit.ne_underscore hdigit.ne_underscore]
    exact ih
  | underscore digit rest ih =>
    rw [underscoresBetween_underscore digit.ne_underscore]
    exact ih

theorem parts (h : DigitRun base cs ds) : ∀ c ∈ cs, (c == '_' || isDigitOf base c) = true := by
  induction h with
  | last digit =>
    intro c hc
    rw [List.mem_singleton.1 hc, isDigitOf_iff.2 ⟨_, digit⟩, Bool.or_true]
  | next digit rest ih =>
    rw [List.forall_mem_cons]
    exact ⟨by rw [isDigitOf_iff.2 ⟨_, digit⟩, Bool.or_true], ih⟩
  | underscore digit rest ih =>
    rw [List.forall_mem_cons, List.forall_mem_cons]
    exact ⟨by rw [isDigitOf_iff.2 ⟨_, digit⟩, Bool.or_true], rfl, ih⟩

theorem values (h : DigitRun base cs ds) : cs.filterMap digitValue? = ds := by
  have hunderscore : digitValue? '_' = none := by decide +kernel
  induction h with
  | last digit => rw [List.filterMap_cons_some digit.1, List.filterMap_nil]
  | next digit rest ih => rw [List.filterMap_cons_some digit.1, ih]
  | underscore digit rest ih =>
    rw [List.filterMap_cons_some digit.1, List.filterMap_cons_none hunderscore, ih]

theorem count (h : DigitRun base cs ds) : (cs.filter (· != '_')).length = ds.length := by
  induction h with
  | last digit => simp only [List.filter_cons, bne_iff_ne.2 digit.ne_underscore, if_true, List.filter_nil,
      List.length_singleton]
  | next digit rest ih =>
    simp only [List.filter_cons, bne_iff_ne.2 digit.ne_underscore, if_true, List.length_cons, ih]
  | underscore digit rest ih =>
    simp only [List.filter_cons, bne_iff_ne.2 digit.ne_underscore, if_true, bne_self_eq_false, Bool.false_eq_true,
      if_false, List.length_cons, ih]

end DigitRun

/-- Parts of a number with underscores only between digits are a run of digits. -/
theorem exists_digitRun {cs : List Char} (hbetween : underscoresBetween cs = true)
    (hparts : ∀ c ∈ cs, (c == '_' || isDigitOf base c) = true) : ∃ ds, DigitRun base cs ds := by
  have hdigit : ∀ c ∈ cs, c ≠ '_' → ∃ d, IsDigit base c d := by
    intro c hc hne
    have hpart := hparts c hc
    rw [Bool.or_eq_true, beq_iff_eq] at hpart
    exact isDigitOf_iff.1 (hpart.resolve_left hne)
  clear hparts
  fun_induction underscoresBetween cs with
  | case1 => cases hbetween
  | case2 => cases hbetween
  | case3 c hc =>
    obtain ⟨d, hd⟩ := hdigit c List.mem_cons_self hc
    exact ⟨_, .last hd⟩
  | case4 => cases hbetween
  | case5 c rest hc ih =>
    rw [List.forall_mem_cons, List.forall_mem_cons] at hdigit
    obtain ⟨d, hd⟩ := hdigit.1 hc
    obtain ⟨ds, hrest⟩ := ih hbetween hdigit.2.2
    exact ⟨_, .underscore hd hrest⟩
  | case6 c rest _ _ hc _ ih =>
    rw [List.forall_mem_cons] at hdigit
    obtain ⟨d, hd⟩ := hdigit.1 hc
    obtain ⟨ds, hrest⟩ := ih hbetween hdigit.2
    exact ⟨_, .next hd hrest⟩

theorem digitsValue_eq {cs : List Char} {ds : List Nat} (h : DigitRun base cs ds) :
    digitsValue base cs = numberOf base ds := by
  rw [digitsValue, h.values, numberOf, Nat.ofDigits_eq_foldr, List.foldr_reverse]
  congr 1
  funext acc d
  rw [Nat.cast_id, Nat.mul_comm, Nat.add_comm]

end Runs

/-! ## Reading the digits -/

/-- The reader takes the longest run of parts of a number. -/
theorem takeWhile_parts {base : Nat} {cs back : List Char} {ds : List Nat} (run : DigitRun base cs ds)
    (hback : ∀ c ∈ back, isNumberBlank c = true) :
    (cs ++ back).takeWhile (fun c => c == '_' || isDigitOf base c) = cs ∧
      (cs ++ back).dropWhile (fun c => c == '_' || isDigitOf base c) = back := by
  rw [List.takeWhile_append_of_pos run.parts, List.dropWhile_append_of_pos run.parts]
  cases back with
  | nil => exact ⟨List.append_nil cs, rfl⟩
  | cons c rest =>
    have hstop := not_part_of_isNumberBlank (hback c List.mem_cons_self) base
    rw [List.takeWhile_cons_of_neg (by rw [hstop]; decide), List.dropWhile_cons_of_neg (by rw [hstop]; decide)]
    exact ⟨List.append_nil cs, rfl⟩

/-- A check before an answer. -/
theorem guarded_eq_ok_iff {ε α : Type} {refuse : Bool} {e : ε} {answer : Except ε α} {a : α} :
    (if refuse = true then .error e else answer) = .ok a ↔ refuse = false ∧ answer = .ok a := by
  cases refuse <;> simp

/-- The checks that digits pass when they are read, for the run of parts that the text starts with. -/
theorem LiteralBody.read_eq_ok_iff (body : LiteralBody) (malformed : LiteralError) (n : Nat) {run back : List Char}
    (hrun : body.text.takeWhile (fun c => c == '_' || isDigitOf body.base c) = run)
    (hback : body.text.dropWhile (fun c => c == '_' || isDigitOf body.base c) = back) :
    body.read malformed = .ok n ↔ underscoresBetween run = true ∧
      (body.base = 10 → (run.filter (· != '_')).length ≤ 4300) ∧
      (body.onlyZero = true → digitsValue body.base run = 0) ∧ (∀ c ∈ back, isNumberBlank c = true) ∧
      digitsValue body.base run = n := by
  have hlong : (body.base == 10 && decide (4300 < (run.filter (· != '_')).length)) = false ↔
      (body.base = 10 → (run.filter (· != '_')).length ≤ 4300) := by
    simp only [Bool.and_eq_false_imp, beq_iff_eq, decide_eq_false_iff_not, Nat.not_lt]
  have hzero : (body.onlyZero && digitsValue body.base run != 0) = false ↔
      (body.onlyZero = true → digitsValue body.base run = 0) := by
    simp only [Bool.and_eq_false_imp, bne_eq_false_iff_eq]
  have hblank : (back.any fun c => !isNumberBlank c) = false ↔ ∀ c ∈ back, isNumberBlank c = true := by
    simp only [List.any_eq_false, Bool.not_eq_true, Bool.not_eq_false']
  simp only [read, hrun, hback, maxDecimalDigits]
  rw [guarded_eq_ok_iff, guarded_eq_ok_iff, guarded_eq_ok_iff, guarded_eq_ok_iff, Bool.not_eq_false', hlong, hzero,
    hblank, Except.ok.injEq]

/-- Digits are read if they form a run of their base with nothing but blanks behind it, are not too many where the base
is ten, and write zero where nothing else is allowed. -/
theorem LiteralBody.read_ok_iff (body : LiteralBody) (malformed : LiteralError) (n : Nat) :
    body.read malformed = .ok n ↔ ∃ cs ds back, body.text = cs ++ back ∧ DigitRun body.base cs ds ∧
      (∀ c ∈ back, isNumberBlank c = true) ∧ (body.base = 10 → ds.length ≤ 4300) ∧
      (body.onlyZero = true → n = 0) ∧ n = numberOf body.base ds := by
  constructor
  · intro h
    obtain ⟨hbetween, hshort, hzero, hback, hvalue⟩ := (body.read_eq_ok_iff malformed n rfl rfl).1 h
    obtain ⟨ds, run⟩ := exists_digitRun hbetween (List.all_eq_true.1 List.all_takeWhile)
    rw [run.count] at hshort
    rw [digitsValue_eq run] at hzero hvalue
    exact ⟨_, ds, _, List.takeWhile_append_dropWhile.symm, run, hback, hshort, fun h => hvalue ▸ hzero h, hvalue.symm⟩
  · rintro ⟨cs, ds, back, htext, run, hback, hshort, hzero, rfl⟩
    obtain ⟨htake, hdrop⟩ := takeWhile_parts run hback
    rw [← htext] at htake hdrop
    rw [body.read_eq_ok_iff malformed _ htake hdrop, run.count, digitsValue_eq run]
    exact ⟨run.underscoresBetween, hshort, hzero, hback, rfl⟩

/-! ## Reading the magnitude -/

theorem startsWithZero_cons {c : Char} {rest : List Char} :
    startsWithZero (c :: rest) = true ↔ decimalDigit? c = some 0 := by
  rw [startsWithZero, beq_iff_eq]

/-- A digit with the value zero is a decimal digit. -/
theorem decimalDigit?_of_zero {c : Char} (h : digitValue? c = some 0) : decimalDigit? c = some 0 := by
  unfold digitValue? at h
  split at h
  · next d hd => rw [hd, h]
  · split at h
    · have hpos : c.toNat - 'a'.toNat + 10 = 0 := Option.some.inj h
      omega
    · split at h
      · have hpos : c.toNat - 'A'.toNat + 10 = 0 := Option.some.inj h
        omega
      · cases h

theorem digitValue?_of_decimalDigit? {c : Char} {d : Nat} (h : decimalDigit? c = some d) : digitValue? c = some d := by
  simp only [digitValue?, h]

theorem isDigit_of_zero {c : Char} (h : decimalDigit? c = some 0) : IsDigit 10 c 0 :=
  ⟨digitValue?_of_decimalDigit? h, by decide⟩

/-- Where no mark follows a first zero, nothing but zero can be written. -/
theorem literalBody_unmarked {c : Char} {rest : List Char} (hzero : decimalDigit? c = some 0)
    (hmark : ∀ mark base, rest.head? = some mark → ¬BaseMark mark base) :
    literalBody .marked (c :: rest) = ⟨10, c :: rest, true⟩ := by
  simp only [literalBody, startsWithZero_cons.2 hzero, if_true]
  cases rest with
  | nil => rfl
  | cons mark rest =>
    cases hbase : baseOfMark? mark with
    | none => simp only [hbase]
    | some base => exact absurd (baseOfMark?_eq_some_iff.1 hbase) (hmark mark base rfl)

theorem literalBody_marked {c mark : Char} {base : Nat} {rest : List Char} (hzero : decimalDigit? c = some 0)
    (hmark : BaseMark mark base) :
    literalBody .marked (c :: mark :: rest) = ⟨base, dropUnderscore rest, false⟩ := by
  simp only [literalBody, startsWithZero_cons.2 hzero, if_true, baseOfMark?_eq_some_iff.2 hmark]

theorem literalBody_plain {text : List Char} (hzero : startsWithZero text = false) :
    literalBody .marked text = ⟨10, text, false⟩ := by
  simp only [literalBody, hzero, Bool.false_eq_true, if_false]

theorem BaseMark.ne_ten {mark : Char} {base : Nat} (h : BaseMark mark base) : base ≠ 10 := by
  cases h
  all_goals decide

theorem BaseMark.isBlank {mark : Char} {base : Nat} (h : BaseMark mark base) : isBlank mark = false := by
  cases h
  all_goals decide

theorem dropUnderscore_cases (text : List Char) : text = '_' :: dropUnderscore text ∨ text = dropUnderscore text := by
  unfold dropUnderscore
  split
  · exact .inl rfl
  · exact .inr rfl

theorem dropUnderscore_of_digit {base : Nat} {c : Char} {d : Nat} (h : IsDigit base c d) (rest : List Char) :
    dropUnderscore (c :: rest) = c :: rest := by
  unfold dropUnderscore
  split
  · next heq => exact absurd (List.cons.inj heq).1 h.ne_underscore
  · rfl

/-- What is read of a text without a sign is a magnitude, up to blanks behind it. -/
theorem magnitude_of_read {text : List Char} {malformed : LiteralError} {n : Nat}
    (h : (literalBody .marked text).read malformed = .ok n) :
    ∃ cs back, text = cs ++ back ∧ (∀ c ∈ back, isNumberBlank c = true) ∧ Magnitude cs n := by
  cases hzero : startsWithZero text with
  | false =>
    rw [literalBody_plain hzero, LiteralBody.read_ok_iff] at h
    obtain ⟨cs, ds, back, htext, run, hback, hshort, -, rfl⟩ := h
    refine ⟨cs, back, htext, hback, .decimal run (hshort rfl) fun hhead => ?_⟩
    -- a first digit zero would have been seen
    obtain ⟨c, rest, d, rest', rfl, rfl, hdigit⟩ := run.exists_cons
    obtain rfl : d = 0 := Option.some.inj hhead
    obtain rfl : text = c :: (rest ++ back) := htext
    rw [startsWithZero_cons.2 (decimalDigit?_of_zero hdigit.1)] at hzero
    cases hzero
  | true =>
    cases text with
    | nil => cases hzero
    | cons c rest =>
      have hc := startsWithZero_cons.1 hzero
      by_cases hmark : ∃ mark base, rest.head? = some mark ∧ BaseMark mark base
      · obtain ⟨mark, base, hhead, hmark⟩ := hmark
        obtain ⟨rest, rfl⟩ := List.head?_eq_some_iff.1 hhead
        rw [literalBody_marked hc hmark, LiteralBody.read_ok_iff] at h
        obtain ⟨cs, ds, back, htext, run, hback, -, -, rfl⟩ := h
        have htext : dropUnderscore rest = cs ++ back := htext
        rcases dropUnderscore_cases rest with hrest | hrest
        · exact ⟨_, back, by rw [hrest, htext]; rfl, hback, .markedUnderscore hc hmark run⟩
        · exact ⟨_, back, by rw [hrest, htext]; rfl, hback, .marked hc hmark run⟩
      · have hunmarked : ∀ mark base, rest.head? = some mark → ¬BaseMark mark base :=
          fun mark base hhead h => hmark ⟨mark, base, hhead, h⟩
        rw [literalBody_unmarked hc hunmarked, LiteralBody.read_ok_iff] at h
        obtain ⟨cs, ds, back, htext, run, hback, hshort, honly, rfl⟩ := h
        exact ⟨cs, back, htext, hback, .decimal run (hshort rfl) fun _ => honly rfl⟩

/-- A magnitude is read, whatever blanks stand behind it. -/
theorem Magnitude.read {cs back : List Char} {n : Nat} (h : Magnitude cs n)
    (hback : ∀ c ∈ back, isNumberBlank c = true) (malformed : LiteralError) :
    (literalBody .marked (cs ++ back)).read malformed = .ok n := by
  cases h with
  | @decimal cs ds run short leading =>
    obtain ⟨c, rest, d, rest', rfl, rfl, hdigit⟩ := run.exists_cons
    cases hzero : startsWithZero (c :: rest ++ back) with
    | false =>
      rw [literalBody_plain hzero, LiteralBody.read_ok_iff]
      exact ⟨_, _, back, rfl, run, hback, fun _ => short, fun h => absurd h Bool.false_ne_true, rfl⟩
    | true =>
      have hc := startsWithZero_cons.1 hzero
      have hd : d = 0 := Option.some.inj (hdigit.1.symm.trans (digitValue?_of_decimalDigit? hc))
      have hunmarked : ∀ mark base, (rest ++ back).head? = some mark → ¬BaseMark mark base := by
        -- what follows the zero is a part of the number, or a blank
        intro mark base hhead hmark
        rcases List.mem_append.1 (List.mem_of_head? hhead) with hmem | hmem
        · have hpart := run.parts mark (List.mem_cons_of_mem _ hmem)
          rw [hmark.not_decimal] at hpart
          cases hpart
        · have hblank := isBlank_of_isNumberBlank (hback mark hmem)
          rw [hmark.isBlank] at hblank
          cases hblank
      rw [List.cons_append, literalBody_unmarked hc hunmarked, LiteralBody.read_ok_iff]
      exact ⟨c :: rest, _, back, rfl, run, hback, fun _ => short, fun _ => leading (by rw [hd]; rfl), rfl⟩
  | @marked zero mark base cs ds isZero hmark run =>
    obtain ⟨c, rest, d, rest', rfl, rfl, hdigit⟩ := run.exists_cons
    rw [List.cons_append, List.cons_append, literalBody_marked isZero hmark, List.cons_append,
      dropUnderscore_of_digit hdigit, LiteralBody.read_ok_iff]
    exact ⟨c :: rest, _, back, rfl, run, hback, fun h => absurd h hmark.ne_ten, fun h => absurd h Bool.false_ne_true, rfl⟩
  | @markedUnderscore zero mark base cs ds isZero hmark run =>
    rw [List.cons_append, List.cons_append, literalBody_marked isZero hmark, LiteralBody.read_ok_iff]
    exact ⟨cs, _, back, rfl, run, hback, fun h => absurd h hmark.ne_ten, fun h => absurd h Bool.false_ne_true, rfl⟩

/-! ## Reading a literal -/

theorem DigitRun.chars {base : Nat} {cs : List Char} {ds : List Nat} (h : DigitRun base cs ds) :
    ∀ c ∈ cs, digitValue? c ≠ none ∨ c = '_' := by
  intro c hc
  have hpart := h.parts c hc
  rw [Bool.or_eq_true, beq_iff_eq, isDigitOf_iff] at hpart
  rcases hpart with hunderscore | ⟨d, hd⟩
  · exact .inr hunderscore
  · exact .inl hd.ne_none

/-- The characters of a magnitude are digits of some base, the letters of the marks included, and underscores. -/
theorem Magnitude.chars {cs : List Char} {n : Nat} (h : Magnitude cs n) :
    ∀ c ∈ cs, digitValue? c ≠ none ∨ c = '_' := by
  have hletter : ∀ mark base, BaseMark mark base → digitValue? mark ≠ none := by
    rintro mark base ⟨⟩
    all_goals decide +kernel
  cases h with
  | decimal run => exact run.chars
  | marked isZero hmark run =>
    rw [List.forall_mem_cons, List.forall_mem_cons]
    exact ⟨.inl (isDigit_of_zero isZero).ne_none, .inl (hletter _ _ hmark), run.chars⟩
  | markedUnderscore isZero hmark run =>
    rw [List.forall_mem_cons, List.forall_mem_cons, List.forall_mem_cons]
    exact ⟨.inl (isDigit_of_zero isZero).ne_none, .inl (hletter _ _ hmark), .inr rfl, run.chars⟩

theorem Magnitude.exists_cons {cs : List Char} {n : Nat} (h : Magnitude cs n) :
    ∃ c rest, cs = c :: rest ∧ digitValue? c ≠ none := by
  cases h with
  | decimal run =>
    obtain ⟨c, rest, d, rest', rfl, -, hdigit⟩ := run.exists_cons
    exact ⟨c, rest, rfl, hdigit.ne_none⟩
  | marked isZero => exact ⟨_, _, rfl, (isDigit_of_zero isZero).ne_none⟩
  | markedUnderscore isZero => exact ⟨_, _, rfl, (isDigit_of_zero isZero).ne_none⟩

namespace Literal

variable {cs : List Char} {v : Int}

theorem chars (h : Literal cs v) : ∀ c ∈ cs, digitValue? c ≠ none ∨ c = '_' ∨ c = '+' ∨ c = '-' := by
  have hmagnitude : ∀ {cs n}, Magnitude cs n → ∀ c ∈ cs, digitValue? c ≠ none ∨ c = '_' ∨ c = '+' ∨ c = '-' :=
    fun h c hc => (h.chars c hc).imp_right .inl
  cases h with
  | plain h => exact hmagnitude h
  | plus h =>
    rw [List.forall_mem_cons]
    exact ⟨.inr (.inr (.inl rfl)), hmagnitude h⟩
  | minus h =>
    rw [List.forall_mem_cons]
    exact ⟨.inr (.inr (.inr rfl)), hmagnitude h⟩

/-- No character of a literal is a blank. -/
theorem not_blank (h : Literal cs v) : ∀ c ∈ cs, isBlank c = false := by
  intro c hc
  rcases h.chars c hc with hdigit | rfl | rfl | rfl
  · rw [Bool.eq_false_iff]
    exact fun hblank => hdigit (digitValue?_of_isBlank hblank)
  all_goals decide

/-- No character of a literal is a comma. -/
theorem not_comma (h : Literal cs v) : ',' ∉ cs := by
  intro hc
  rcases h.chars ',' hc with hdigit | heq | heq | heq
  · exact hdigit (by decide +kernel)
  all_goals exact absurd heq (by decide)

theorem ne_nil (h : Literal cs v) : cs ≠ [] := by
  cases h with
  | plain h =>
    obtain ⟨c, rest, rfl, -⟩ := h.exists_cons
    exact List.cons_ne_nil c rest
  | plus => exact List.cons_ne_nil _ _
  | minus => exact List.cons_ne_nil _ _

end Literal

/-- Blanks apart, a literal is read from its sign and its magnitude. -/
theorem readLiteral_eq_ok_iff (text : List Char) (v : Int) :
    readLiteral .marked text = .ok v ↔
      ∃ n : Nat, (literalBody .marked (splitSign (text.dropWhile isNumberBlank)).2).read
        (.malformed .marked (String.ofList text)) = .ok n ∧
        v = (splitSign (text.dropWhile isNumberBlank)).1 * n := by
  simp only [readLiteral]
  cases (literalBody .marked (splitSign (text.dropWhile isNumberBlank)).2).read
      (.malformed .marked (String.ofList text)) with
  | error e => simp only [reduceCtorEq, false_and, exists_false]
  | ok n =>
    simp only [Except.ok.injEq, exists_eq_left']
    exact eq_comm

theorem splitSign_unsigned {c : Char} {rest : List Char} (hplus : c ≠ '+') (hminus : c ≠ '-') :
    splitSign (c :: rest) = (1, c :: rest) := by
  unfold splitSign
  split
  · next heq => exact absurd (List.cons.inj heq).1 hplus
  · next heq => exact absurd (List.cons.inj heq).1 hminus
  · rfl

/-- What is read of a text is a literal, up to blanks around it. -/
theorem literal_of_read {text : List Char} {v : Int} (h : readLiteral .marked text = .ok v) :
    ∃ core, Padded isNumberBlank core text ∧ Literal core v := by
  obtain ⟨n, hread, rfl⟩ := (readLiteral_eq_ok_iff text v).1 h
  obtain ⟨cs, back, htext, hback, hmagnitude⟩ := magnitude_of_read hread
  have hfront : ∀ c ∈ text.takeWhile isNumberBlank, isNumberBlank c = true := List.all_eq_true.1 List.all_takeWhile
  -- with any sign before the digits, the text is what it was
  have hpadded : ∀ sign, text.dropWhile isNumberBlank = sign ++ (cs ++ back) → Padded isNumberBlank (sign ++ cs) text := by
    intro sign hsign
    refine ⟨_, back, hfront, hback, ?_⟩
    rw [List.append_assoc, List.append_assoc, ← hsign, List.takeWhile_append_dropWhile]
  generalize text.dropWhile isNumberBlank = unpadded at htext hpadded ⊢
  unfold splitSign at htext ⊢
  split at htext
  · refine ⟨_, hpadded ['+'] (by rw [← htext]; rfl), ?_⟩
    rw [Int.one_mul]
    exact .plus hmagnitude
  · refine ⟨_, hpadded ['-'] (by rw [← htext]; rfl), ?_⟩
    rw [Int.neg_one_mul]
    exact .minus hmagnitude
  · refine ⟨_, hpadded [] htext, ?_⟩
    rw [Int.one_mul]
    exact .plain hmagnitude

/-- A literal is read, whatever blanks stand around it. -/
theorem Literal.read {core text : List Char} {v : Int} (h : Literal core v) (hpadded : Padded isNumberBlank core text) :
    readLiteral .marked text = .ok v := by
  obtain ⟨front, back, hfront, hback, htext⟩ := hpadded
  have hdrop : text.dropWhile isNumberBlank = core ++ back := by
    rw [htext, List.append_assoc, List.dropWhile_append_of_pos hfront]
    obtain ⟨c, rest, rfl⟩ := List.exists_cons_of_ne_nil h.ne_nil
    have hfirst : ¬isNumberBlank c = true := fun hblank => by
      have hblank := isBlank_of_isNumberBlank hblank
      rw [h.not_blank c List.mem_cons_self] at hblank
      cases hblank
    exact List.dropWhile_cons_of_neg hfirst
  rw [readLiteral_eq_ok_iff, hdrop]
  cases h with
  | @plain cs n h =>
    obtain ⟨c, rest, rfl, hdigit⟩ := h.exists_cons
    have hplus : c ≠ '+' := by
      rintro rfl
      exact hdigit (by decide +kernel)
    have hminus : c ≠ '-' := by
      rintro rfl
      exact hdigit (by decide +kernel)
    rw [List.cons_append, splitSign_unsigned hplus hminus]
    exact ⟨n, h.read hback _, (Int.one_mul _).symm⟩
  | @plus cs n h => exact ⟨n, h.read hback _, (Int.one_mul _).symm⟩
  | @minus cs n h => exact ⟨n, h.read hback _, (Int.neg_one_mul _).symm⟩

/-- **The reader accepts exactly the literals.** -/
theorem readLiteral_marked_ok_iff (text : List Char) (v : Int) :
    readLiteral .marked text = .ok v ↔ ∃ core, Padded isNumberBlank core text ∧ Literal core v := by
  constructor
  · exact literal_of_read
  · rintro ⟨core, hpadded, hliteral⟩
    exact hliteral.read hpadded

end Lift166
