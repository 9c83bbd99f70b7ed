import Lift166.Proofs.Literals

/-!
# Written numbers

The plain ways to write an integer: an optional sign, and then the decimal digits of its magnitude, without leading
zeros, or a base mark and the digits in that base, with as many leading zeros as one likes and in either case. Each of
them is a literal with that integer as its value, so that what is written comes back when it is read.
-/

namespace Lift166

/-- The plain ways to write a natural number. -/
inductive Numeral : List Char → Nat → Prop
  | decimal (n : Nat) (short : (Nat.toDigits 10 n).length ≤ 4300) : Numeral (Nat.toDigits 10 n) n
  | marked {mark : Char} {base : Nat} {digits : List Char} (n zeros : Nat) (hmark : BaseMark mark base)
      (hdigits : digits.map Char.toLower = List.replicate zeros '0' ++ Nat.toDigits base n) :
      Numeral ('0' :: mark :: digits) n

/-! ## Digits by value -/

section Digits

variable {base : Nat}

theorem numberOf_concat (ds : List Nat) (d : Nat) : numberOf base (ds ++ [d]) = d + base * numberOf base ds := by
  rw [numberOf, List.reverse_concat, Nat.ofDigits_cons, numberOf]

theorem numberOf_replicate_zero_append (zeros : Nat) (ds : List Nat) :
    numberOf base (List.replicate zeros 0 ++ ds) = numberOf base ds := by
  rw [numberOf, List.reverse_append, List.reverse_replicate, Nat.ofDigits_append_replicate_zero, numberOf]

/-- The printed digits of a number by their values: they give the number back, and the first of them is zero only for
zero itself. -/
theorem toDigits_values (hbase : 1 < base) (n : Nat) :
    ∃ ds, Nat.toDigits base n = ds.map Nat.digitChar ∧ (∀ d ∈ ds, d < base) ∧ numberOf base ds = n ∧
      (ds.head? = some 0 → n = 0) := by
  induction n using Nat.strong_induction_on with
  | _ n ih =>
    rw [Nat.toDigits_eq_if hbase]
    by_cases hsmall : n < base
    · rw [if_pos hsmall]
      refine ⟨[n], rfl, fun d hd => ?_, ?_, fun hhead => Option.some.inj hhead⟩
      · rw [List.mem_singleton.1 hd]
        exact hsmall
      · exact Nat.ofDigits_singleton
    · rw [if_neg hsmall]
      obtain ⟨ds, hprinted, hbound, hvalue, hhead⟩ := ih (n / base) (Nat.div_lt_self (by omega) hbase)
      refine ⟨ds ++ [n % base], ?_, fun d hd => ?_, ?_, fun hzero => ?_⟩
      · rw [hprinted, List.map_append, List.map_singleton]
      · rcases List.mem_append.1 hd with hd | hd
        · exact hbound d hd
        · rw [List.mem_singleton.1 hd]
          exact Nat.mod_lt n (by omega)
      · rw [numberOf_concat, hvalue]
        exact Nat.mod_add_div n base
      · -- the first digit is that of the quotient, which is not zero
        have hne : ds ≠ [] := by
          rintro rfl
          exact Nat.toDigits_ne_nil hprinted
        obtain ⟨first, rest, rfl⟩ := List.exists_cons_of_ne_nil hne
        have hquotient : 0 < n / base := Nat.div_pos (by omega) (by omega)
        have hnone : n / base = 0 := hhead hzero
        omega

/-- Digits are read in either case. -/
theorem digitValue?_of_toLower {c : Char} {d : Nat} (hd : d < 16) (h : c.toLower = d.digitChar) :
    digitValue? c = some d := by
  by_cases hupper : c.val ≥ 'A'.val ∧ c.val ≤ 'Z'.val
  · have hcapitals : ∀ n < 91, 65 ≤ n → ∀ d < 16, (Char.ofNat n).toLower = d.digitChar →
        digitValue? (Char.ofNat n) = some d := by
      decide +kernel
    obtain ⟨hlow, hhigh⟩ := hupper
    rw [ge_iff_le, UInt32.le_iff_toNat_le] at hlow
    rw [UInt32.le_iff_toNat_le] at hhigh
    have hlow : 65 ≤ c.toNat := hlow
    have hhigh : c.toNat ≤ 90 := hhigh
    rw [← Char.ofNat_toNat c] at h ⊢
    exact hcapitals c.toNat (by omega) hlow d hd h
  · have hdigits : ∀ d < 16, digitValue? d.digitChar = some d := by decide +kernel
    have hsame : c.toLower = c := by
      unfold Char.toLower
      exact dif_neg hupper
    rw [hsame] at h
    rw [h]
    exact hdigits d hd

/-- Characters that print given digits, in either case, are a run of these digits. -/
theorem digitRun_of_map {digits : List Char} {ds : List Nat} (hle : base ≤ 16) (hne : ds ≠ [])
    (hbound : ∀ d ∈ ds, d < base) (h : digits.map Char.toLower = ds.map Nat.digitChar) : DigitRun base digits ds := by
  induction ds generalizing digits with
  | nil => exact absurd rfl hne
  | cons d rest ih =>
    obtain ⟨c, digits, rfl, hc, hrest⟩ := List.map_eq_cons_iff.1 h
    rw [List.forall_mem_cons] at hbound
    have hdigit : IsDigit base c d := ⟨digitValue?_of_toLower (Nat.lt_of_lt_of_le hbound.1 hle) hc, hbound.1⟩
    cases rest with
    | nil =>
      obtain rfl : digits = [] := List.map_eq_nil_iff.1 hrest
      exact .last hdigit
    | cons => exact .next hdigit (ih (List.cons_ne_nil _ _) hbound.2 hrest)

/-- The digits of a number, in either case and after any number of zeros, are a run of digits with its value. -/
theorem digitRun_of_printed (hbase : 1 < base) (hle : base ≤ 16) {digits : List Char} {n zeros : Nat}
    (h : digits.map Char.toLower = List.replicate zeros '0' ++ Nat.toDigits base n) :
    ∃ ds, DigitRun base digits ds ∧ numberOf base ds = n := by
  obtain ⟨ds, hprinted, hbound, hvalue, -⟩ := toDigits_values hbase n
  have hzeros : List.replicate zeros '0' = (List.replicate zeros 0).map Nat.digitChar := by
    rw [List.map_replicate]
    rfl
  rw [hprinted, hzeros, ← List.map_append] at h
  have hne : List.replicate zeros 0 ++ ds ≠ [] := by
    intro hnil
    rw [(List.append_eq_nil_iff.1 hnil).2] at hprinted
    exact Nat.toDigits_ne_nil hprinted
  have hall : ∀ d ∈ List.replicate zeros 0 ++ ds, d < base := by
    intro d hd
    rcases List.mem_append.1 hd with hd | hd
    · rw [List.eq_of_mem_replicate hd]
      omega
    · exact hbound d hd
  exact ⟨_, digitRun_of_map hle hne hall h, (numberOf_replicate_zero_append zeros ds).trans hvalue⟩

end Digits

theorem BaseMark.bounds {mark : Char} {base : Nat} (h : BaseMark mark base) : 1 < base ∧ base ≤ 16 := by
  cases h
  all_goals decide

/-- A number that is written plainly is a magnitude. -/
theorem Numeral.magnitude {cs : List Char} {n : Nat} (h : Numeral cs n) : Magnitude cs n := by
  cases h with
  | decimal n short =>
    obtain ⟨ds, hprinted, hbound, hvalue, hhead⟩ := toDigits_values (by decide : 1 < 10) n
    have hlower : ∀ d < 10, d.digitChar.toLower = d.digitChar := by decide
    have hmap : (Nat.toDigits 10 n).map Char.toLower = ds.map Nat.digitChar := by
      rw [hprinted, List.map_map]
      exact List.map_congr_left fun d hd => hlower d (hbound d hd)
    have hne : ds ≠ [] := by
      rintro rfl
      exact Nat.toDigits_ne_nil hprinted
    have hrun := digitRun_of_map (by decide) hne hbound hmap
    rw [hprinted, List.length_map] at short
    rw [← hvalue] at hhead
    have hmagnitude := Magnitude.decimal hrun short hhead
    rw [hvalue] at hmagnitude
    exact hmagnitude
  | marked n zeros hmark hdigits =>
    obtain ⟨hbase, hle⟩ := hmark.bounds
    obtain ⟨ds, hrun, rfl⟩ := digitRun_of_printed hbase hle hdigits
    exact .marked (by decide +kernel) hmark hrun

/-- An integer that is written plainly is a literal. -/
theorem literal_of_numeral {cs : List Char} {v : Int} (h : Signed Numeral cs v) : Literal cs v :=
  h.mono fun _ _ => Numeral.magnitude

end Lift166
