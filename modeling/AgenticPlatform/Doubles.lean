import AgenticPlatform.NumberText
import AgenticPlatform.Rounding

/-!
# Doubles

A double is a whole number of 53 bits times a power of two, with a sign, an infinity, or no
number at all. A decimal is rounded to one once; decimals of one value are rounded to one
double.
-/

namespace AgenticPlatform

/-- A double: a finite one is a whole number times a power of two, with a sign. -/
inductive Binary64 where
  | nan
  | infinite (negative : Bool)
  | finite (negative : Bool) (number : Nat × Int)
deriving DecidableEq

/-- What `int` raises. -/
inductive IntError where
  | value
  | overflow
deriving DecidableEq

namespace Binary64

/-- Doubles stay below this power of two. -/
def maxExponent : Nat := 1024

/-- The decimal `digits * 10 ** exponent`, rounded. -/
def ofDecimal (negative : Bool) (digits : Nat) (exponent : Int) : Binary64 :=
  let number := trueDivide (digits * 10 ^ exponent.toNat) (10 ^ (-exponent).toNat)
  if 0 ≤ number.2 ∧ 2 ^ maxExponent ≤ number.1 * 2 ^ number.2.toNat then .infinite negative
  else .finite negative number

/-- `int(value)`: towards zero. -/
def toInt : Binary64 → Except IntError Int
  | .nan => .error .value
  | .infinite _ => .error .overflow
  | .finite negative number =>
    let whole : Nat := number.1 * 2 ^ number.2.toNat / 2 ^ (-number.2).toNat
    .ok (if negative then -whole else whole)

def isFinite : Binary64 → Bool
  | .finite _ _ => true
  | _ => false

/-- The decimal `digits * 10 ** exponent` with 53 significant bits. -/
def rounding (digits : Nat) (exponent : Int) : Nat × Int :=
  trueDivide (digits * 10 ^ exponent.toNat) (10 ^ (-exponent).toNat)

/-- The number that a finite double stands for. -/
def signed (negative : Bool) (number : Nat × Int) : ℚ :=
  if negative then -dyadic number else dyadic number

/-- `left < right`; nothing is less or greater than what is no number. -/
def lt : Binary64 → Binary64 → Bool
  | .finite negative number, .finite negative' number' =>
      decide (signed negative number < signed negative' number')
  | .infinite negative, .infinite negative' => negative && !negative'
  | .infinite negative, .finite _ _ => negative
  | .finite _ _, .infinite negative => !negative
  | _, _ => false

/-- `left <= right`. -/
def le : Binary64 → Binary64 → Bool
  | .nan, _ => false
  | _, .nan => false
  | left, right => !right.lt left

/-- `float(n)`. -/
def ofInt (n : Int) : Binary64 := .ofDecimal (decide (n < 0)) n.natAbs 0

/-! ### Rounding a decimal -/

variable {digits digits' : Nat} {exponent exponent' : Int} {negative : Bool} {number : Nat × Int}

/-- A decimal as the fraction that is rounded. -/
theorem decimal_quotient (digits : Nat) (exponent : Int) :
    ((digits * 10 ^ exponent.toNat : Nat) : ℚ) / (10 ^ (-exponent).toNat : Nat) =
      digits * 10 ^ exponent := by
  rcases le_or_gt 0 exponent with h | h
  · obtain ⟨k, rfl⟩ := Int.eq_ofNat_of_zero_le h
    simp
  · obtain ⟨k, hk⟩ := Int.eq_ofNat_of_zero_le (show 0 ≤ -exponent by omega)
    have he : exponent = -(k : Int) := by omega
    subst he
    simp [div_eq_mul_inv]

theorem denominator_pos (exponent : Int) : 0 < 10 ^ (-exponent).toNat := Nat.pow_pos (by decide)

/-- Decimals of one value are rounded to one number. -/
theorem rounding_congr (h : (digits : ℚ) * 10 ^ exponent = digits' * 10 ^ exponent') :
    dyadic (rounding digits exponent) = dyadic (rounding digits' exponent') := by
  rw [← decimal_quotient, ← decimal_quotient] at h
  exact le_antisymm (trueDivide_mono (denominator_pos _) (denominator_pos _) h.le)
    (trueDivide_mono (denominator_pos _) (denominator_pos _) h.ge)

theorem rounding_zero (exponent : Int) : dyadic (rounding 0 exponent) = 0 := by
  unfold rounding
  rw [Nat.zero_mul]
  exact trueDivide_zero (denominator_pos _)

/-- Whether a number is too large for a double depends on its value only. -/
theorem overflow_iff (h : number.1 ≤ 2 ^ 53) :
    (0 ≤ number.2 ∧ 2 ^ maxExponent ≤ number.1 * 2 ^ number.2.toNat) ↔
      (2 : ℚ) ^ maxExponent ≤ dyadic number := by
  obtain ⟨m, e⟩ := number
  unfold dyadic
  dsimp only at h ⊢
  rcases le_or_gt 0 e with hge | hlt
  · obtain ⟨k, rfl⟩ := Int.eq_ofNat_of_zero_le hge
    rw [Int.toNat_natCast, zpow_natCast]
    constructor
    · rintro ⟨-, hlarge⟩
      exact_mod_cast hlarge
    · intro hlarge
      exact ⟨hge, by exact_mod_cast hlarge⟩
  · constructor
    · rintro ⟨hge, -⟩
      omega
    · intro hlarge
      exfalso
      have hm : (m : ℚ) ≤ 2 ^ 53 := by exact_mod_cast h
      have hpow : (2 : ℚ) ^ e ≤ 1 := zpow_le_one_of_nonpos₀ (by norm_num) hlt.le
      have hsize : (2 : ℚ) ^ 53 < 2 ^ maxExponent := pow_lt_pow_right₀ (by norm_num) (by decide)
      have hpos : (0 : ℚ) ≤ 2 ^ e := zpow_nonneg (by norm_num) e
      have hprod : (m : ℚ) * 2 ^ e ≤ 2 ^ 53 * 1 := mul_le_mul hm hpow hpos (by norm_num)
      linarith

theorem rounding_le (digits : Nat) (exponent : Int) : (rounding digits exponent).1 ≤ 2 ^ 53 :=
  trueDivide_le (denominator_pos _)

theorem ofDecimal_eq (negative : Bool) (digits : Nat) (exponent : Int) :
    ofDecimal negative digits exponent =
      if (2 : ℚ) ^ maxExponent ≤ dyadic (rounding digits exponent) then .infinite negative
      else .finite negative (rounding digits exponent) := by
  have hiff := overflow_iff (rounding_le digits exponent)
  unfold ofDecimal
  by_cases hlarge : (2 : ℚ) ^ maxExponent ≤ dyadic (rounding digits exponent)
  · rw [if_pos hlarge]
    exact if_pos (hiff.mpr hlarge)
  · rw [if_neg hlarge]
    exact if_neg fun h => hlarge (hiff.mp h)

theorem ofDecimal_of_lt (h : dyadic (rounding digits exponent) < 2 ^ maxExponent) :
    ofDecimal negative digits exponent = .finite negative (rounding digits exponent) := by
  rw [ofDecimal_eq, if_neg (not_le.mpr h)]

theorem lt_of_ofDecimal {sign : Bool}
    (h : ofDecimal negative digits exponent = .finite sign number) :
    sign = negative ∧ number = rounding digits exponent ∧ dyadic number < 2 ^ maxExponent := by
  rw [ofDecimal_eq] at h
  split at h
  · cases h
  · rename_i hlarge
    cases h
    exact ⟨rfl, rfl, not_le.mp hlarge⟩

/-! ### The same number -/

/-- `left == right`, and what is no number with itself. -/
inductive Same : Binary64 → Binary64 → Prop
  | finite {negative negative' : Bool} {number number' : Nat × Int}
      (h : signed negative number = signed negative' number') :
      Same (.finite negative number) (.finite negative' number')
  | refl (value : Binary64) : Same value value

variable {left right other : Binary64}

theorem Same.symm (h : Same left right) : Same right left := by
  rcases h with h | -
  · exact .finite h.symm
  · exact .refl _

theorem Same.trans (h : Same left right) (hother : Same right other) : Same left other := by
  cases h with
  | refl => exact hother
  | finite h =>
    cases hother with
    | refl => exact .finite h
    | finite hother => exact .finite (h.trans hother)

theorem same_finite_iff {negative negative' : Bool} {number number' : Nat × Int} :
    Same (.finite negative number) (.finite negative' number') ↔
      signed negative number = signed negative' number' := by
  refine ⟨fun h => ?_, .finite⟩
  rcases h with h | -
  · exact h
  · rfl

theorem abs_signed (negative : Bool) (number : Nat × Int) :
    |signed negative number| = dyadic number := by
  have hnonneg := dyadic_nonneg number
  unfold signed
  split
  · rw [abs_neg, abs_of_nonneg hnonneg]
  · exact abs_of_nonneg hnonneg

/-- The sign aside. -/
theorem Same.value_eq {negative negative' : Bool} {number number' : Nat × Int}
    (h : Same (.finite negative number) (.finite negative' number')) :
    dyadic number = dyadic number' := by
  rw [← abs_signed negative, same_finite_iff.mp h, abs_signed]

theorem same_of_dyadic {number' : Nat × Int} (h : dyadic number = dyadic number')
    (negative : Bool) : Same (.finite negative number) (.finite negative number') := by
  refine .finite ?_
  unfold signed
  rw [h]

/-- A decimal that makes a finite double is rounded to it. -/
theorem Same.rounding_eq {sign : Bool}
    (h : Same (ofDecimal sign digits exponent) (.finite negative number)) :
    dyadic (rounding digits exponent) = dyadic number := by
  rw [ofDecimal_eq] at h
  split at h
  · cases h
  · exact h.value_eq

/-- Decimals of one value make one double. -/
theorem ofDecimal_same (negative : Bool)
    (h : dyadic (rounding digits exponent) = dyadic (rounding digits' exponent')) :
    Same (ofDecimal negative digits exponent) (ofDecimal negative digits' exponent') := by
  rw [ofDecimal_eq, ofDecimal_eq, ← h]
  split
  · exact .refl _
  · exact same_of_dyadic h negative

theorem lt_congr (h : Same left right) : left.lt other = right.lt other := by
  rcases h with h | -
  · rcases other with - | infinite | ⟨negative, number⟩
    · rfl
    · rfl
    · rw [lt, lt, h]
  · rfl

theorem lt_congr_right (h : Same left right) : other.lt left = other.lt right := by
  rcases h with h | -
  · rcases other with - | infinite | ⟨negative, number⟩
    · rfl
    · rfl
    · rw [lt, lt, h]
  · rfl

theorem le_congr (h : Same left right) : left.le other = right.le other := by
  have hless : other.lt left = other.lt right := lt_congr_right h
  rcases h with h | -
  · rcases other with - | infinite | ⟨negative, number⟩
    · rfl
    · exact congrArg Bool.not hless
    · exact congrArg Bool.not hless
  · rfl

end Binary64

end AgenticPlatform
