import AgenticPlatform.DecimalText
import Mathlib.Tactic.FieldSimp
import Mathlib.Tactic.Ring

/-!
# What a written double is read as

`float` of `'{:g}'` of a double is the double nearest to its six significant digits: the same
one exactly if it is the double nearest to some decimal of six digits.
-/

namespace AgenticPlatform

namespace Number

/-! ### Digits -/

/-- Decimal digits, and nothing else. -/
def AllDigits (chars : List Char) : Prop := ∀ c ∈ chars, c.isDigit = true

variable {chars more : List Char} {width n : Nat}

theorem AllDigits.append (h : AllDigits chars) (hmore : AllDigits more) :
    AllDigits (chars ++ more) := by
  intro c hc
  rcases List.mem_append.mp hc with hc | hc
  · exact h c hc
  · exact hmore c hc

theorem toList_toString (n : Nat) : (toString n).toList = Nat.toDigits 10 n := Nat.toList_repr

theorem allDigits_toString (n : Nat) : AllDigits (toString n).toList := by
  rw [toList_toString]
  exact fun c hc => Nat.isDigit_of_mem_toDigits (by decide) (by decide) hc

theorem allDigits_zeros (n : Nat) : AllDigits (List.replicate n '0') := by
  intro c hc
  rw [List.eq_of_mem_replicate hc]
  rfl

theorem allDigits_padded (width n : Nat) : AllDigits (padded width n) :=
  (allDigits_zeros _).append (allDigits_toString n)

theorem ofDigitChars_padded (width n : Nat) : Nat.ofDigitChars 10 (padded width n) 0 = n := by
  rw [padded, Nat.ofDigitChars_append, Nat.ofDigitChars_replicate_zero, Nat.mul_zero,
    toList_toString, Nat.ofDigitChars_ten_toDigits]

theorem padded_ne_nil (width n : Nat) : padded width n ≠ [] := by
  intro h
  have hdigits := List.append_eq_nil_iff.mp h
  rw [toList_toString] at hdigits
  exact Nat.toDigits_ne_nil hdigits.2

theorem length_padded (hwidth : 0 < width) (h : n < 10 ^ width) :
    (padded width n).length = width := by
  have hlength : (Nat.toDigits 10 n).length ≤ width :=
    (Nat.length_toDigits_le_iff (by decide) hwidth).mpr h
  rw [padded, List.length_append, List.length_replicate, toList_toString]
  omega

/-- Digits with the zeros at their end taken off. -/
theorem rdropWhile_zeros (chars : List Char) :
    ∃ zeros, zeros + (chars.rdropWhile (· == '0')).length = chars.length ∧
      chars = chars.rdropWhile (· == '0') ++ List.replicate zeros '0' := by
  refine ⟨(chars.rtakeWhile (· == '0')).length, ?_, ?_⟩
  · rw [Nat.add_comm, ← List.length_append, List.rdropWhile_append_rtakeWhile]
  · have hzeros : chars.rtakeWhile (· == '0') =
        List.replicate (chars.rtakeWhile (· == '0')).length '0' := by
      rw [List.eq_replicate_length]
      intro c hc
      have hzero := List.mem_rtakeWhile_imp hc
      exact eq_of_beq hzero
    rw [← hzeros, List.rdropWhile_append_rtakeWhile]

/-- What `fraction` writes, without its point. -/
def places (width n : Nat) : List Char := (padded width n).rdropWhile (· == '0')

theorem fraction_eq (width n : Nat) :
    fraction width n = if places width n = [] then [] else '.' :: places width n := rfl

theorem allDigits_places (width n : Nat) : AllDigits (places width n) := by
  intro c hc
  exact allDigits_padded width n c ((List.rdropWhile_prefix _ _).subset hc)

/-- The places that are written stand for the number among `width` places. -/
theorem ofDigitChars_places (h : n < 10 ^ width) : (places width n).length ≤ width ∧
    Nat.ofDigitChars 10 (places width n) 0 * 10 ^ (width - (places width n).length) = n := by
  rcases Nat.eq_zero_or_pos width with rfl | hwidth
  · rw [Nat.pow_zero, Nat.lt_one_iff] at h
    subst h
    decide
  · rcases rdropWhile_zeros (padded width n) with ⟨zeros, hlength, hsplit⟩
    rw [length_padded hwidth h] at hlength
    have hvalue := ofDigitChars_padded width n
    rw [hsplit, Nat.ofDigitChars_append, Nat.ofDigitChars_replicate_zero, Nat.mul_comm] at hvalue
    have hplaces : (places width n).length = ((padded width n).rdropWhile (· == '0')).length := rfl
    refine ⟨by omega, ?_⟩
    have hzeros : width - (places width n).length = zeros := by omega
    rw [hzeros]
    exact hvalue

/-! ### The parts of a decimal -/

theorem splitAtFirst_none {stop : Char → Bool} (h : ∀ c ∈ chars, stop c = false) :
    splitAtFirst stop chars = (chars, none) := by
  have hall : ∀ c ∈ chars, (!stop c) = true := fun c hc => by rw [h c hc]; rfl
  have hdrop : chars.dropWhile (fun c => !stop c) = [] := List.dropWhile_eq_nil_iff.mpr hall
  have htake : chars.takeWhile (fun c => !stop c) = chars := List.takeWhile_eq_self_iff.mpr hall
  rw [splitAtFirst, hdrop, htake]

theorem splitAtFirst_some {stop : Char → Bool} {c : Char} (h : ∀ c ∈ chars, stop c = false)
    (hstop : stop c = true) : splitAtFirst stop (chars ++ c :: more) = (chars, some more) := by
  have hall : ∀ c ∈ chars, (!stop c) = true := fun c hc => by rw [h c hc]; rfl
  have hnot : (!stop c) = false := by rw [hstop]; rfl
  have hdrop : (chars ++ c :: more).dropWhile (fun c => !stop c) = c :: more := by
    rw [List.dropWhile_append_of_pos hall, List.dropWhile_cons, hnot]
    rfl
  have htake : (chars ++ c :: more).takeWhile (fun c => !stop c) = chars := by
    rw [List.takeWhile_append_of_pos hall, List.takeWhile_cons, hnot]
    exact List.append_nil chars
  rw [splitAtFirst, hdrop, htake]

theorem readPart_digits (h : AllDigits chars) :
    readPart chars = some (Nat.ofDigitChars 10 chars 0, chars.length) := by
  rw [readPart]
  split
  · rename_i hempty
    rw [hempty]
    rfl
  · rename_i hne
    have hfilter : chars.filter (· ≠ '_') = chars := by
      rw [List.filter_eq_self]
      intro c hc
      have hdigit := h c hc
      rw [decide_eq_true_eq]
      rintro rfl
      cases hdigit
    rw [readNumber_digits hne h, Option.map_some, hfilter]

theorem AllDigits.not_point (h : AllDigits chars) : ∀ c ∈ chars, (c == '.') = false := by
  intro c hc
  have hdigit := h c hc
  rw [beq_eq_false_iff_ne]
  rintro rfl
  cases hdigit

theorem AllDigits.not_power (h : AllDigits chars) :
    ∀ c ∈ chars, (c == 'e' || c == 'E') = false := by
  intro c hc
  have hdigit := h c hc
  rw [Bool.or_eq_false_iff, beq_eq_false_iff_ne, beq_eq_false_iff_ne]
  constructor
  · rintro rfl
    cases hdigit
  · rintro rfl
    cases hdigit

theorem not_power_mantissa {whole : List Char} (h : AllDigits whole) :
    ∀ c ∈ whole ++ fraction width n, (c == 'e' || c == 'E') = false := by
  intro c hc
  rcases List.mem_append.mp hc with hc | hc
  · exact h.not_power c hc
  · rw [fraction_eq] at hc
    split at hc
    · cases hc
    · rcases List.mem_cons.mp hc with rfl | hc
      · rfl
      · exact (allDigits_places width n).not_power c hc

theorem splitAtFirst_point {whole : List Char} (h : AllDigits whole) (width n : Nat) :
    ∃ rest, splitAtFirst (· == '.') (whole ++ fraction width n) = (whole, rest) ∧
      rest.getD [] = places width n := by
  rw [fraction_eq]
  split
  · rename_i hempty
    rw [List.append_nil]
    exact ⟨none, splitAtFirst_none h.not_point, hempty.symm⟩
  · exact ⟨some (places width n), splitAtFirst_some h.not_point (beq_self_eq_true '.'),
      Option.getD_some⟩

/-- What is read of a mantissa, once the exponent is known. -/
theorem readDecimal_of_power {whole : List Char} {power : Option (List Char)} {exponent : Int}
    (h : AllDigits whole) (hne : whole ≠ [])
    (hsplit : splitAtFirst (fun c => c == 'e' || c == 'E') chars =
      (whole ++ fraction width n, power))
    (hpower : power.elim (some 0) readExponent = some exponent) :
    readDecimal chars = some (Nat.ofDigitChars 10 whole 0 * 10 ^ (places width n).length +
      Nat.ofDigitChars 10 (places width n) 0, exponent - (places width n).length) := by
  rcases splitAtFirst_point h width n with ⟨rest, hpoint, hrest⟩
  have hlength : ¬ whole.length + (places width n).length = 0 := by
    have hpos := List.length_pos_iff.mpr hne
    omega
  simp only [readDecimal, hsplit, hpoint, hrest, hpower, readPart_digits h,
    readPart_digits (allDigits_places width n), Option.bind_eq_bind, Option.bind_some]
  exact if_neg hlength

theorem readDecimal_plain {whole : List Char} (h : AllDigits whole) (hne : whole ≠ []) :
    readDecimal (whole ++ fraction width n) =
      some (Nat.ofDigitChars 10 whole 0 * 10 ^ (places width n).length +
        Nat.ofDigitChars 10 (places width n) 0, 0 - ((places width n).length : Int)) :=
  readDecimal_of_power h hne (splitAtFirst_none (not_power_mantissa h)) rfl

theorem readDecimal_power {whole power : List Char} {exponent : Int} (h : AllDigits whole)
    (hne : whole ≠ []) (hpower : readExponent power = some exponent) :
    readDecimal (whole ++ fraction width n ++ 'e' :: power) =
      some (Nat.ofDigitChars 10 whole 0 * 10 ^ (places width n).length +
        Nat.ofDigitChars 10 (places width n) 0, exponent - (places width n).length) :=
  readDecimal_of_power h hne (splitAtFirst_some (not_power_mantissa h) rfl) hpower

/-- The places of a decimal may be counted with the zeros at their end. -/
theorem decimalValue_places {high : Nat} {exponent : Int} (h : n < 10 ^ width) :
    decimalValue
      (high * 10 ^ (places width n).length + Nat.ofDigitChars 10 (places width n) 0 : Nat)
      (exponent - (places width n).length) =
        ((high * 10 ^ width + n : Nat) : ℚ) * 10 ^ (exponent - width) := by
  rcases ofDigitChars_places h with ⟨hle, hvalue⟩
  generalize (places width n).length = k at hle hvalue ⊢
  generalize Nat.ofDigitChars 10 (places width n) 0 = low at hvalue ⊢
  obtain ⟨zeros, rfl⟩ := Nat.exists_eq_add_of_le hle
  rw [Nat.add_sub_cancel_left] at hvalue
  have hten : (10 : ℚ) ≠ 0 := by norm_num
  have hexponent : exponent - (k : Int) =
      (exponent - ((k + zeros : Nat) : Int)) + (zeros : Int) := by
    push_cast
    ring
  rw [decimalValue, hexponent, zpow_add₀ hten, zpow_natCast, ← hvalue, pow_add]
  push_cast
  ring

theorem readNumber_padded (width n : Nat) : readNumber 10 (padded width n) = some n := by
  rw [readNumber_digits (padded_ne_nil width n) (allDigits_padded width n), ofDigitChars_padded]

theorem readExponent_padded (width : Nat) (first : Int) :
    readExponent ((if first < 0 then '-' else '+') :: padded width first.natAbs) = some first := by
  split
  · rename_i hnegative
    have hfirst : -(first.natAbs : Int) = first := by omega
    rw [readExponent, readNumber_padded]
    exact congrArg some hfirst
  · rename_i hnonneg
    have hfirst : (first.natAbs : Int) = first := by omega
    rw [readExponent, readNumber_padded]
    exact congrArg some hfirst

/-- Significant digits are read at their value, with an exponent and without one. -/
theorem readDecimal_notationOf (width digits : Nat) (first limit : Int) :
    ∃ number, readDecimal (notationOf width digits first limit) = some number ∧
      decimalValue number.1 number.2 = digits * 10 ^ (first - width) := by
  have hmod : ∀ n places : Nat, n % 10 ^ places < 10 ^ places :=
    fun n places => Nat.mod_lt _ (Nat.pow_pos (by decide))
  have hne : ∀ n : Nat, (toString n).toList ≠ [] := by
    intro n hnil
    rw [toList_toString] at hnil
    exact Nat.toDigits_ne_nil hnil
  have hwhole : ∀ n : Nat, Nat.ofDigitChars 10 (toString n).toList 0 = n := fun n => by
    rw [toList_toString, Nat.ofDigitChars_ten_toDigits]
  have hten : (10 : ℚ) ≠ 0 := by norm_num
  rw [notationOf]
  split
  · refine ⟨_, readDecimal_plain (allDigits_toString _) (hne _), ?_⟩
    -- the zeros that are put on and the places that are cut off exclude each other
    have hsum : digits * 10 ^ (first - width).toNat / 10 ^ (width - first).toNat *
        10 ^ (width - first).toNat + digits % 10 ^ (width - first).toNat =
          digits * 10 ^ (first - width).toNat := by
      rcases Int.le_total first width with hle | hle
      · have hzeros : (first - width).toNat = 0 := by omega
        rw [hzeros, Nat.pow_zero, Nat.mul_one, Nat.div_add_mod']
      · have hplaces : (width - first).toNat = 0 := by omega
        rw [hplaces, Nat.pow_zero, Nat.div_one, Nat.mul_one, Nat.mod_one, Nat.add_zero]
    rw [hwhole, decimalValue_places (hmod _ _), hsum]
    push_cast
    rw [mul_assoc, ← zpow_natCast, ← zpow_add₀ hten]
    congr 2
    omega
  · refine ⟨_, readDecimal_power (allDigits_toString _) (hne _) (readExponent_padded 2 first), ?_⟩
    rw [hwhole, decimalValue_places (hmod _ _), Nat.div_add_mod']

/-! ### Six significant digits -/

/-- A decimal rounded to six significant digits. -/
def sixValue (digits : Nat) (exponent : Int) : ℚ :=
  if digits = 0 then 0
  else decimalValue (sixDigits digits exponent).1 ((sixDigits digits exponent).2 - 5)

variable {digits : Nat} {exponent : Int}

theorem lt_pow_digitCount (digits : Nat) : digits < 10 ^ digitCount digits :=
  Nat.lt_pow_succ_log_self (by decide) digits

theorem pow_digitCount_pos (digits : Nat) : 0 < 10 ^ digitCount digits :=
  Nat.pow_pos (by decide)

theorem nearest_six_le (digits : Nat) :
    nearest (digits * 10 ^ 6) (10 ^ digitCount digits) ≤ 10 ^ 6 := by
  apply nearest_le_of_lt
  rw [Nat.mul_comm]
  exact Nat.mul_lt_mul_of_pos_left (lt_pow_digitCount digits) (by decide)

theorem sixDigits_lt (digits : Nat) (exponent : Int) : (sixDigits digits exponent).1 < 10 ^ 6 := by
  have hle := nearest_six_le digits
  rw [sixDigits]
  split
  · exact Nat.pow_lt_pow_right (by decide) (by decide)
  · rename_i hround
    exact Nat.lt_of_le_of_ne hle hround

theorem sixValue_eq (h : digits ≠ 0) : sixValue digits exponent =
    decimalValue (nearest (digits * 10 ^ 6) (10 ^ digitCount digits))
      (exponent + digitCount digits - 6) := by
  have hten : (10 : ℚ) ≠ 0 := by norm_num
  rw [sixValue, if_neg h, sixDigits]
  split
  · rename_i hround
    have hexponent : exponent + digitCount digits - 1 + 1 - 5 =
        exponent + digitCount digits - 6 + 1 := by omega
    rw [hround, decimalValue, decimalValue, hexponent, zpow_add_one₀ hten]
    push_cast
    ring
  · have hexponent : exponent + (digitCount digits : Int) - 1 - 5 =
        exponent + digitCount digits - 6 := by omega
    rw [hexponent]

theorem sixValue_sixDigits (digits : Nat) (exponent : Int) :
    ∃ (k : Nat) (m : Int), k < 10 ^ 6 ∧ sixValue digits exponent = decimalValue k m := by
  rw [sixValue]
  split
  · refine ⟨0, 0, by decide, ?_⟩
    rw [decimalValue, Nat.cast_zero, Int.cast_zero, zero_mul]
  · exact ⟨_, _, sixDigits_lt digits exponent, rfl⟩

/-! ### The nearest decimal of six digits -/

/-- A decimal in units of its sixth significant digit. -/
structure Units (digits : Nat) (exponent : Int) (x unit : ℚ) : Prop where
  value : decimalValue digits exponent = x * unit
  six : sixValue digits exponent =
    (nearest (digits * 10 ^ 6) (10 ^ digitCount digits) : Nat) * unit
  low : 10 ^ 5 ≤ x
  high : x < 10 ^ 6

/-- The unit of the sixth significant digit. -/
def sixthUnit (digits : Nat) (exponent : Int) : ℚ := 10 ^ (exponent + digitCount digits - 6)

theorem units_of_ne (h : digits ≠ 0) (exponent : Int) : Units digits exponent
    (((digits * 10 ^ 6 : Nat) : ℚ) / (10 ^ digitCount digits : Nat))
    (sixthUnit digits exponent) where
  value := by
    have hten : (10 : ℚ) ≠ 0 := by norm_num
    have hpow : (10 : ℚ) ^ digitCount digits ≠ 0 := pow_ne_zero _ hten
    rw [decimalValue, sixthUnit, zpow_sub₀ hten, zpow_add₀ hten, zpow_natCast]
    push_cast
    field_simp
  six := by
    rw [sixValue_eq h, decimalValue, sixthUnit, Int.cast_natCast]
  low := by
    have hpow : 10 ^ (digitCount digits - 1) ≤ digits := Nat.pow_log_le_self 10 h
    have hcount : 10 ^ digitCount digits = 10 ^ (digitCount digits - 1) * 10 := by
      rw [← Nat.pow_succ]
      rfl
    rw [le_div_iff₀ (by positivity), hcount]
    have hscaled : 10 ^ 5 * (10 ^ (digitCount digits - 1) * 10) ≤ digits * 10 ^ 6 := by
      calc 10 ^ 5 * (10 ^ (digitCount digits - 1) * 10)
          = 10 ^ (digitCount digits - 1) * 10 ^ 6 := by ring
        _ ≤ digits * 10 ^ 6 := Nat.mul_le_mul_right _ hpow
    exact_mod_cast hscaled
  high := by
    rw [div_lt_iff₀ (by positivity)]
    have hscaled : digits * 10 ^ 6 < 10 ^ 6 * 10 ^ digitCount digits := by
      rw [Nat.mul_comm]
      exact Nat.mul_lt_mul_of_pos_left (lt_pow_digitCount digits) (by decide)
    exact_mod_cast hscaled

/-- A number of six digits is a multiple of the unit, or less than the number by a tenth of it
    at least. -/
theorem sixDigits_units {k : Nat} (hk : k < 10 ^ 6) (m bound : Int) :
    (∃ j : Nat, decimalValue k m = j * 10 ^ bound) ∨
      decimalValue k m ≤ (10 ^ 5 - 1 / 10) * 10 ^ bound := by
  have hten : (10 : ℚ) ≠ 0 := by norm_num
  rcases lt_or_ge m bound with hlt | hge
  · right
    have hpow : (10 : ℚ) ^ m ≤ 10 ^ (bound - 1) :=
      zpow_le_zpow_right₀ (by norm_num) (by omega)
    have hk : (k : ℚ) ≤ 10 ^ 6 - 1 := by
      have hsucc : ((k + 1 : Nat) : ℚ) ≤ (10 ^ 6 : Nat) := by exact_mod_cast hk
      push_cast at hsucc
      linarith
    calc decimalValue k m
        = (k : ℚ) * 10 ^ m := by rw [decimalValue, Int.cast_natCast]
      _ ≤ (10 ^ 6 - 1) * 10 ^ (bound - 1) := by gcongr
      _ = (10 ^ 5 - 1 / 10) * 10 ^ bound := by
          rw [zpow_sub_one₀ hten]
          ring
  · left
    obtain ⟨count, rfl⟩ := Int.le.dest hge
    refine ⟨k * 10 ^ count, ?_⟩
    rw [decimalValue, Int.cast_natCast, zpow_add₀ hten, zpow_natCast]
    push_cast
    ring

theorem sixthUnit_pos (digits : Nat) (exponent : Int) : 0 < sixthUnit digits exponent :=
  zpow_pos (by norm_num) _

theorem sixValue_pos (h : digits ≠ 0) (exponent : Int) : 0 < sixValue digits exponent := by
  have hunits := units_of_ne h exponent
  have hbest := (nearest_spec (pow_digitCount_pos digits) (digits * 10 ^ 6)).1
  have hnear := (abs_le.mp hbest).2
  have hlow := hunits.low
  rw [hunits.six]
  refine mul_pos ?_ (sixthUnit_pos digits exponent)
  generalize ((digits * 10 ^ 6 : Nat) : ℚ) / (10 ^ digitCount digits : Nat) = x at hnear hlow
  generalize nearest (digits * 10 ^ 6) (10 ^ digitCount digits) = n at hnear ⊢
  linarith

/-- **No decimal of six digits is nearer.** -/
theorem sixValue_best (h : digits ≠ 0) (exponent : Int) {k : Nat} (hk : k < 10 ^ 6) (m : Int) :
    |sixValue digits exponent - decimalValue digits exponent| ≤
      |decimalValue k m - decimalValue digits exponent| := by
  have hunits := units_of_ne h exponent
  have hunit := sixthUnit_pos digits exponent
  have hbest := nearest_best (pow_digitCount_pos digits) (digits * 10 ^ 6)
  obtain ⟨hvalue, hsix, hlow, -⟩ := hunits
  generalize ((digits * 10 ^ 6 : Nat) : ℚ) / (10 ^ digitCount digits : Nat) = x at *
  generalize nearest (digits * 10 ^ 6) (10 ^ digitCount digits) = n at *
  have hdistance : |sixValue digits exponent - decimalValue digits exponent| =
      |x - n| * sixthUnit digits exponent := by
    rw [hsix, hvalue, ← sub_mul, abs_mul, abs_of_pos hunit, abs_sub_comm]
  rw [hdistance, hvalue]
  rcases sixDigits_units hk m (exponent + digitCount digits - 6) with ⟨j, hj⟩ | hless
  · rw [hj]
    change _ ≤ |(j : ℚ) * sixthUnit digits exponent - _|
    rw [← sub_mul, abs_mul, abs_of_pos hunit, abs_sub_comm (j : ℚ)]
    exact mul_le_mul_of_nonneg_right (hbest j) hunit.le
  · change _ ≤ _ * sixthUnit digits exponent at hless
    have hleft := hbest (10 ^ 5)
    have habove : 0 ≤ x - (10 ^ 5 : Nat) := by
      push_cast
      linarith
    rw [abs_of_nonneg habove] at hleft
    push_cast at hleft
    have hscaled := mul_le_mul_of_nonneg_right hleft hunit.le
    refine le_trans ?_ (neg_le_abs _)
    linarith

/-- A decimal of six digits that differs from a number in the sixteenth digit only is what the
    number is rounded to. -/
theorem sixValue_of_near (h : digits ≠ 0) (exponent : Int) {k : Nat} (hk : k < 10 ^ 6) (m : Int)
    (hnear : 2 ^ 53 * |decimalValue k m - decimalValue digits exponent| ≤ decimalValue k m) :
    sixValue digits exponent = decimalValue k m := by
  have hunits := units_of_ne h exponent
  have hunit := sixthUnit_pos digits exponent
  have hbest := nearest_best (pow_digitCount_pos digits) (digits * 10 ^ 6)
  obtain ⟨hvalue, hsix, hlow, hhigh⟩ := hunits
  generalize ((digits * 10 ^ 6 : Nat) : ℚ) / (10 ^ digitCount digits : Nat) = x at *
  generalize nearest (digits * 10 ^ 6) (10 ^ digitCount digits) = n at *
  rw [hsix]
  rw [hvalue] at hnear
  rcases sixDigits_units hk m (exponent + digitCount digits - 6) with ⟨j, hj⟩ | hless
  · change _ = (j : ℚ) * sixthUnit digits exponent at hj
    rw [hj] at hnear ⊢
    rw [← sub_mul, abs_mul, abs_of_pos hunit, ← mul_assoc] at hnear
    have hclose : 2 ^ 53 * |(j : ℚ) - x| ≤ j := le_of_mul_le_mul_right hnear hunit
    have hn := hbest j
    rw [abs_sub_comm x (j : ℚ)] at hn
    have hj := abs_le.mp (le_refl |(j : ℚ) - x|)
    have hn' := abs_le.mp (le_refl |x - n|)
    -- both are whole numbers, and less than one apart
    have habove : (n : ℚ) < j + 1 := by linarith
    have hbelow : (j : ℚ) < n + 1 := by linarith
    have habove : n < j + 1 := by exact_mod_cast habove
    have hbelow : j < n + 1 := by exact_mod_cast hbelow
    rw [show n = j by omega]
  · exfalso
    change _ ≤ _ * sixthUnit digits exponent at hless
    have hscaled := mul_le_mul_of_nonneg_right hlow hunit.le
    have hdist := neg_abs_le (decimalValue k m - x * sixthUnit digits exponent)
    linarith

/-! ### Reading what was written -/

/-- The characters of a decimal without its sign: the first one is a digit. -/
structure Unsigned (chars : List Char) : Prop where
  digit : ∃ first rest, chars = first :: rest ∧ first.isDigit = true
  plain : ∀ c ∈ chars, isSpace c = false

theorem plain_of_all (h : chars.all (fun c => !isSpace c) = true) :
    ∀ c ∈ chars, isSpace c = false := by
  intro c hc
  have hplain := List.all_eq_true.mp h c hc
  rwa [Bool.not_eq_true'] at hplain

theorem AllDigits.plain (h : AllDigits chars) : ∀ c ∈ chars, isSpace c = false :=
  fun c hc => (digitBelow_ten (h c hc)).2.1

theorem unsigned_append {whole : List Char} (h : AllDigits whole) (hne : whole ≠ [])
    (hmore : ∀ c ∈ more, isSpace c = false) : Unsigned (whole ++ more) := by
  rcases whole with - | ⟨first, rest⟩
  · exact absurd rfl hne
  · refine ⟨⟨first, rest ++ more, rfl, h first List.mem_cons_self⟩, fun c hc => ?_⟩
    rcases List.mem_append.mp hc with hc | hc
    · exact h.plain c hc
    · exact hmore c hc

theorem fraction_plain (width n : Nat) : ∀ c ∈ fraction width n, isSpace c = false := by
  intro c hc
  rw [fraction_eq] at hc
  split at hc
  · cases hc
  · rcases List.mem_cons.mp hc with rfl | hc
    · rfl
    · exact (allDigits_places width n).plain c hc

theorem toString_ne_nil (n : Nat) : (toString n).toList ≠ [] := by
  intro h
  rw [toList_toString] at h
  exact Nat.toDigits_ne_nil h

theorem unsigned_notationOf (width digits : Nat) (first limit : Int) :
    Unsigned (notationOf width digits first limit) := by
  rw [notationOf]
  split
  · exact unsigned_append (allDigits_toString _) (toString_ne_nil _) (fraction_plain _ _)
  · rw [List.append_assoc]
    refine unsigned_append (allDigits_toString _) (toString_ne_nil _) fun c hc => ?_
    rcases List.mem_append.mp hc with hc | hc
    · exact fraction_plain _ _ c hc
    · rcases List.mem_cons.mp hc with rfl | hc
      · rfl
      · rcases List.mem_cons.mp hc with rfl | hc
        · split <;> rfl
        · exact (allDigits_padded 2 _).plain c hc

theorem generalDigits_eq (h : digits ≠ 0) : generalDigits digits exponent =
    notationOf 5 (sixDigits digits exponent).1 (sixDigits digits exponent).2 6 := by
  unfold generalDigits
  rcases sixDigits digits exponent with ⟨six, first⟩
  exact if_neg h

theorem generalDigits_zero (exponent : Int) : generalDigits 0 exponent = ['0'] := if_pos rfl

theorem unsigned_generalDigits (digits : Nat) (exponent : Int) :
    Unsigned (generalDigits digits exponent) := by
  rcases eq_or_ne digits 0 with rfl | hne
  · rw [generalDigits_zero]
    exact ⟨⟨'0', [], rfl, rfl⟩, fun c hc => by rw [List.mem_singleton.mp hc]; rfl⟩
  · rw [generalDigits_eq hne]
    exact unsigned_notationOf _ _ _ _

theorem readDecimal_generalDigits (digits : Nat) (exponent : Int) :
    ∃ number, readDecimal (generalDigits digits exponent) = some number ∧
      decimalValue number.1 number.2 = sixValue digits exponent := by
  rcases eq_or_ne digits 0 with rfl | hne
  · refine ⟨(0, 0), by rw [generalDigits_zero]; decide, ?_⟩
    rw [sixValue, if_pos rfl, decimalValue, Nat.cast_zero, Int.cast_zero, zero_mul]
  · rw [generalDigits_eq hne, sixValue, if_neg hne]
    obtain ⟨number, hread, hvalue⟩ := readDecimal_notationOf 5 (sixDigits digits exponent).1
      (sixDigits digits exponent).2 6
    refine ⟨number, hread, hvalue.trans ?_⟩
    rw [decimalValue]
    norm_cast

theorem toLower_digit {c : Char} (h : c.isDigit = true) : c.toLower = c := by
  have hle : '0' ≤ c ∧ c ≤ '9' := by
    simpa [Char.isDigit, Char.le_def] using h
  have hhigh : c.toNat ≤ 57 := hle.2
  refine dif_neg fun hupper => ?_
  have hlow : 65 ≤ c.toNat := hupper.1
  omega

end Number

namespace Binary64

open Number

variable {chars : List Char} {negative : Bool} {number : Nat × Int} {value : Binary64}

/-- A name does not begin with a digit. -/
theorem readUnsigned_eq (h : Unsigned chars) (negative : Bool) :
    readUnsigned negative chars = (readDecimal chars).map fun number =>
      .ofDecimal negative number.1 number.2 := by
  obtain ⟨first, rest, rfl, hdigit⟩ := h.digit
  have hname : ∀ name : String, (∃ c after, name.toList = c :: after ∧ c.isDigit = false) →
      String.ofList ((first :: rest).map Char.toLower) ≠ name := by
    rintro name ⟨c, after, hname, hc⟩ heq
    rw [← heq, String.toList_ofList, List.map_cons, toLower_digit hdigit, List.cons.injEq] at hname
    rw [← hname.1, hdigit] at hc
    cases hc
  simp only [readUnsigned]
  rw [if_neg, if_neg]
  · exact hname "nan" ⟨'n', _, rfl, rfl⟩
  · rintro (hinf | hinf)
    · exact hname "inf" ⟨'i', _, rfl, rfl⟩ hinf
    · exact hname "infinity" ⟨'i', _, rfl, rfl⟩ hinf

theorem withSign_toList (negative : Bool) (chars : List Char) :
    (withSign negative chars).toList = (if negative then ['-'] else []) ++ chars := by
  rw [withSign, String.toList_ofList]

theorem withSign_plain (hplain : ∀ c ∈ chars, isSpace c = false) (negative : Bool) :
    ∀ c ∈ (withSign negative chars).toList, isSpace c = false := by
  intro c hc
  rw [withSign_toList] at hc
  rcases List.mem_append.mp hc with hc | hc
  · split at hc
    · rw [List.mem_singleton.mp hc]
      rfl
    · cases hc
  · exact hplain c hc

theorem general_plain (value : Binary64) : ∀ c ∈ value.general.toList, isSpace c = false := by
  cases value with
  | nan => exact plain_of_all (by decide)
  | infinite negative => exact withSign_plain (plain_of_all (by decide)) negative
  | finite negative number => exact withSign_plain (unsigned_generalDigits _ _).plain negative

/-- A sign and digits are read as they were written. -/
theorem parse_withSign (h : Unsigned chars) (negative : Bool) :
    parse (withSign negative chars) = readUnsigned negative chars := by
  rw [parse, strip_eq (withSign_plain h.plain negative), withSign_toList]
  cases negative with
  | true => rfl
  | false =>
    obtain ⟨first, rest, rfl, hdigit⟩ := h.digit
    have hsigns := digitBelow_ten hdigit
    rw [if_neg Bool.false_ne_true, List.nil_append]
    split
    · rename_i heq
      exact absurd (List.cons.inj heq).1 hsigns.2.2.1
    · rename_i heq
      exact absurd (List.cons.inj heq).1 hsigns.2.2.2.1
    · rfl

/-- **What `float` reads of a number that `'{:g}'` wrote.** -/
theorem parse_general (negative : Bool) (number : Nat × Int) :
    ∃ (digits : Nat) (exponent : Int),
      parse (general (.finite negative number)) = some (.ofDecimal negative digits exponent) ∧
        decimalValue digits exponent = sixValue (exact number).1 (exact number).2 := by
  have hunsigned := unsigned_generalDigits (exact number).1 (exact number).2
  obtain ⟨read, hread, hvalue⟩ := readDecimal_generalDigits (exact number).1 (exact number).2
  refine ⟨read.1, read.2, ?_, hvalue⟩
  rw [general, parse_withSign hunsigned, readUnsigned_eq hunsigned, hread]
  rfl

/-- What `float` makes of the text that `'{:g}'` writes. -/
def reread (value : Binary64) : Binary64 := (parse value.general).getD value

theorem parse_general_eq (value : Binary64) : parse value.general = some value.reread := by
  have hsome : ∃ read, parse value.general = some read := by
    cases value with
    | nan => exact ⟨.nan, by decide⟩
    | infinite negative =>
      refine ⟨.infinite negative, ?_⟩
      cases negative <;> decide
    | finite negative number =>
      obtain ⟨digits, exponent, hparse, -⟩ := parse_general negative number
      exact ⟨_, hparse⟩
  obtain ⟨read, hread⟩ := hsome
  rw [reread, hread, Option.getD_some]

/-! ### Six digits of a double -/

/-- A double has finitely many decimal places. -/
theorem exact_value (number : Nat × Int) :
    decimalValue (exact number).1 (exact number).2 = dyadic number := by
  obtain ⟨m, e⟩ := number
  have hten : (10 : ℚ) = 5 * 2 := by norm_num
  simp only [exact, decimalValue, dyadic]
  push_cast
  rw [zpow_neg, zpow_natCast, hten, mul_pow, ← zpow_split e]
  field_simp

/-- A decimal of six digits that is rounded to a number is rounded to it again after the number
    was cut to six digits. -/
theorem rounding_sixValue {k digits : Nat} {m exponent : Int} (hk : k < 10 ^ 6)
    (hround : dyadic (rounding k m) = dyadic number)
    (hvalue : decimalValue digits exponent = sixValue (exact number).1 (exact number).2) :
    dyadic (rounding digits exponent) = dyadic number := by
  have hexact := exact_value number
  rcases Nat.eq_zero_or_pos (exact number).1 with hzero | hpos
  · have hnone : decimalValue digits exponent = decimalValue 0 0 := by
      rw [hvalue, sixValue, if_pos hzero, decimalValue, Int.cast_zero, zero_mul]
    rw [hzero, decimalValue, Nat.cast_zero, Int.cast_zero, zero_mul] at hexact
    rw [← hexact, rounding_congr hnone]
    exact rounding_zero 0
  have hdyadic : 0 < dyadic number := by
    rw [← hexact, decimalValue, Int.cast_natCast]
    positivity
  have hkpos : 0 < k := by
    rcases Nat.eq_zero_or_pos k with rfl | hkpos
    · rw [rounding_zero] at hround
      exact absurd hround hdyadic.ne
    · exact hkpos
  have hnum : 0 < k * 10 ^ m.toNat := Nat.mul_pos hkpos (Nat.pow_pos (by decide))
  rcases lt_or_ge ((k : ℚ) * 10 ^ m) (((2 ^ 52 : Nat) : ℚ) * 2 ^ minExponent) with hsmall | hnormal
  · -- on the finest grid, the six digits are at least as near as the decimal
    have hsix := sixValue_pos hpos.ne' (exact number).2
    rw [← hvalue] at hsix
    have hdigits : 0 < digits := by
      rcases Nat.eq_zero_or_pos digits with rfl | hdigits
      · rw [decimalValue, Nat.cast_zero, Int.cast_zero, zero_mul] at hsix
        exact absurd hsix (lt_irrefl 0)
      · exact hdigits
    have hbest := sixValue_best hpos.ne' (exact number).2 hk m
    rw [← hvalue, hexact, ← hround] at hbest
    rw [← hround]
    refine trueDivide_of_closer hnum (denominator_pos m)
      (Nat.mul_pos hdigits (Nat.pow_pos (by decide))) (denominator_pos exponent) ?_ ?_
    · rw [decimal_quotient]
      exact hsmall
    · rw [decimal_quotient, decimal_quotient]
      exact hbest
  · -- a normal number differs from the decimal in the sixteenth digit only
    have hrelative := trueDivide_relative hnum (denominator_pos m) (by rwa [decimal_quotient])
    rw [decimal_quotient] at hrelative
    change 2 ^ 53 * |_ - dyadic (rounding k m)| ≤ _ at hrelative
    rw [hround, ← hexact] at hrelative
    have hsame := sixValue_of_near hpos.ne' (exact number).2 hk m hrelative
    rw [← hround]
    exact rounding_congr (hvalue.trans hsame)

/-- A number that is given as a decimal. -/
def IsDecimal (value : Binary64) : Prop :=
  ∃ (negative : Bool) (digits : Nat) (exponent : Int), value = .ofDecimal negative digits exponent

/-- The double nearest to some decimal of at most six significant digits. -/
def Short (value : Binary64) : Prop :=
  ∃ (negative : Bool) (digits : Nat) (exponent : Int), digits < 10 ^ 6 ∧
    Same (.ofDecimal negative digits exponent) value

/-- **A double comes back from its six digits exactly if they are enough for it.** -/
theorem reread_same_iff (h : value.IsDecimal) : value.reread.Same value ↔ value.Short := by
  obtain ⟨sign, digits, exponent, h⟩ := h
  cases value with
  | nan =>
    rw [ofDecimal_eq] at h
    split at h <;> cases h
  | infinite negative =>
    have hreread : reread (.infinite negative) = .infinite negative := by
      cases negative <;> decide
    rw [hreread]
    refine ⟨fun _ => ⟨negative, 1, 400, by decide, ?_⟩, fun _ => .refl _⟩
    have hlarge : ofDecimal negative 1 400 = .infinite negative := by
      cases negative <;> decide +kernel
    rw [hlarge]
    exact .refl _
  | finite negative number =>
    obtain ⟨-, -, hbound⟩ := lt_of_ofDecimal h.symm
    obtain ⟨digits', exponent', hparse, hvalue⟩ := parse_general negative number
    have hreread : reread (.finite negative number) = .ofDecimal negative digits' exponent' := by
      rw [reread, hparse, Option.getD_some]
    rw [hreread]
    constructor
    · intro hsame
      obtain ⟨k, m, hk, hsix⟩ := sixValue_sixDigits (exact number).1 (exact number).2
      have hcut := rounding_congr (hsix.symm.trans hvalue.symm)
      exact ⟨negative, k, m, hk, (ofDecimal_same negative hcut).trans hsame⟩
    · rintro ⟨sign', k, m, hk, hsame⟩
      have hround := hsame.rounding_eq
      have hagain := rounding_sixValue hk hround hvalue
      rw [ofDecimal_of_lt (hagain ▸ hbound)]
      exact same_of_dyadic hagain negative

end Binary64

end AgenticPlatform
