import AgenticPlatform.Basics
import Mathlib.Algebra.Order.Field.Power
import Mathlib.Algebra.Order.Field.Rat
import Mathlib.Tactic.FieldSimp
import Mathlib.Tactic.GCongr
import Mathlib.Tactic.Linarith
import Mathlib.Tactic.NormNum
import Mathlib.Tactic.Positivity
import Mathlib.Tactic.Ring

/-!
# Rounding to binary64

The quotient of two whole numbers, rounded once to the nearest number of 53 significant
bits, ties to even. What is proved of it is what a comparison needs: the larger quotient
is never rounded below the smaller one, and how far a quotient is from its rounding.
-/

namespace AgenticPlatform

/-! ### To a whole number -/

/-- The quotient `n / d` rounded to a whole number, ties to even. -/
def nearest (n d : Nat) : Nat :=
  if d < 2 * (n % d) ∨ (d = 2 * (n % d) ∧ n / d % 2 = 1) then n / d + 1 else n / d

theorem nearest_le (n d : Nat) : nearest n d * d ≤ 2 * n := by
  have hsplit := Nat.div_add_mod n d
  have hcomm : n / d * d = d * (n / d) := Nat.mul_comm _ _
  unfold nearest
  split
  · rw [Nat.add_mul, hcomm]
    omega
  · rw [hcomm]
    omega

/-- A rounded quotient is no further off than half. -/
theorem nearest_near {d : Nat} (hd : 0 < d) (n : Nat) :
    2 * (nearest n d * d) ≤ 2 * n + d ∧ 2 * n ≤ 2 * (nearest n d * d) + d := by
  have hsplit := Nat.div_add_mod n d
  have hcomm : n / d * d = d * (n / d) := Nat.mul_comm _ _
  have hlt := Nat.mod_lt n hd
  unfold nearest
  split
  · rw [Nat.add_mul, hcomm]
    omega
  · rw [hcomm]
    omega

theorem div_le_nearest (n d : Nat) : n / d ≤ nearest n d := by
  unfold nearest
  split <;> omega

theorem nearest_le_succ (n d : Nat) : nearest n d ≤ n / d + 1 := by
  unfold nearest
  split <;> omega

/-- What is below a whole number is rounded to that number at most. -/
theorem nearest_le_of_lt {n d k : Nat} (h : n < k * d) : nearest n d ≤ k := by
  have hdiv : n / d < k := Nat.div_lt_of_lt_mul (by rwa [Nat.mul_comm] at h)
  have hsucc := nearest_le_succ n d
  omega

/-- What is no less than a whole number is rounded to no less. -/
theorem le_nearest_of_le {n d k : Nat} (hd : 0 < d) (h : k * d ≤ n) : k ≤ nearest n d :=
  le_trans ((Nat.le_div_iff_mul_le hd).mpr h) (div_le_nearest n d)

/-- The larger quotient is not rounded to less. -/
theorem nearest_mono {n d n' d' : Nat} (hd : 0 < d) (hd' : 0 < d') (h : n * d' ≤ n' * d) :
    nearest n d ≤ nearest n' d' := by
  have hsplit := Nat.div_add_mod n d
  have hsplit' := Nat.div_add_mod n' d'
  have hquot : n / d ≤ n' / d' := by
    rw [Nat.le_div_iff_mul_le hd']
    have hle : n / d * d' * d ≤ n' * d := by
      calc n / d * d' * d
          = n / d * d * d' := by ring
        _ ≤ n * d' := by gcongr; exact Nat.div_mul_le_self n d
        _ ≤ n' * d := h
    exact Nat.le_of_mul_le_mul_right hle hd
  rcases hquot.lt_or_eq with hlt | heq
  · exact le_trans (nearest_le_succ n d) (le_trans hlt (div_le_nearest n' d'))
  · -- The whole parts agree, so the remainders are compared.
    have hrest : n % d * d' ≤ n' % d' * d := by
      rw [← hsplit, ← hsplit', heq, Nat.add_mul, Nat.add_mul] at h
      have hcomm : d' * (n' / d') * d = d * (n' / d') * d' := by ring
      omega
    unfold nearest
    rw [heq]
    split
    · rename_i hup
      rw [if_pos]
      rcases hup with hover | ⟨hhalf, hodd⟩
      · left
        have hlt : d * d' < 2 * (n' % d') * d := by
          calc d * d' < 2 * (n % d) * d' := by gcongr
            _ = 2 * (n % d * d') := by ring
            _ ≤ 2 * (n' % d' * d) := by gcongr
            _ = 2 * (n' % d') * d := by ring
        rw [Nat.mul_comm d d'] at hlt
        exact Nat.lt_of_mul_lt_mul_right hlt
      · have hle : d' * d ≤ 2 * (n' % d') * d := by
          calc d' * d = 2 * (n % d) * d' := by rw [← hhalf, Nat.mul_comm]
            _ = 2 * (n % d * d') := by ring
            _ ≤ 2 * (n' % d' * d) := by gcongr
            _ = 2 * (n' % d') * d := by ring
        rcases (Nat.le_of_mul_le_mul_right hle hd).lt_or_eq with hlt | hsame
        · exact Or.inl hlt
        · exact Or.inr ⟨hsame, hodd⟩
    · split <;> omega

/-! ### The nearest numbers -/

/-- A quotient is rounded by half a unit at most, and by that much to an even number only. -/
theorem nearest_spec {d : Nat} (hd : 0 < d) (n : Nat) :
    |(n : ℚ) / d - nearest n d| ≤ 1 / 2 ∧
      (|(n : ℚ) / d - nearest n d| = 1 / 2 → nearest n d % 2 = 0) := by
  have hpos : (0 : ℚ) < d := by exact_mod_cast hd
  have hsplit : (n : ℚ) / d = (n / d : Nat) + ((n % d : Nat) : ℚ) / d := by
    have hcast : (n : ℚ) = d * (n / d : Nat) + (n % d : Nat) := by
      exact_mod_cast (Nat.div_add_mod n d).symm
    rw [div_eq_iff hpos.ne', add_mul, div_mul_cancel₀ _ hpos.ne']
    linarith
  have hlow : 0 ≤ ((n % d : Nat) : ℚ) / d := by positivity
  have hhigh : ((n % d : Nat) : ℚ) / d < 1 := by
    rw [div_lt_one hpos]
    exact_mod_cast Nat.mod_lt n hd
  have hover : d < 2 * (n % d) ↔ 1 / 2 < ((n % d : Nat) : ℚ) / d := by
    rw [lt_div_iff₀ hpos, ← @Nat.cast_lt ℚ]
    push_cast
    constructor <;> intro h <;> linarith
  have hhalf : d = 2 * (n % d) ↔ ((n % d : Nat) : ℚ) / d = 1 / 2 := by
    rw [div_eq_iff hpos.ne', ← @Nat.cast_inj ℚ]
    push_cast
    constructor <;> intro h <;> linarith
  rw [hsplit]
  generalize ((n % d : Nat) : ℚ) / d = rest at hlow hhigh hover hhalf
  unfold nearest
  split
  · rename_i hup
    rw [hover, hhalf] at hup
    have hge : 1 / 2 ≤ rest := by
      rcases hup with hlt | ⟨heq, -⟩
      · exact hlt.le
      · exact heq.ge
    have hdist : |((n / d : Nat) : ℚ) + rest - (n / d + 1 : Nat)| = 1 - rest := by
      rw [abs_of_nonpos (by push_cast; linarith)]
      push_cast
      ring
    rw [hdist]
    refine ⟨by linarith, fun htie => ?_⟩
    rcases hup with hlt | ⟨-, hodd⟩
    · linarith
    · omega
  · rename_i hdown
    rw [hover, hhalf, not_or, not_and] at hdown
    have hdist : |((n / d : Nat) : ℚ) + rest - (n / d : Nat)| = rest := by
      rw [add_sub_cancel_left, abs_of_nonneg hlow]
    rw [hdist]
    refine ⟨not_lt.mp hdown.1, fun htie => ?_⟩
    have hodd := hdown.2 htie
    omega

/-- Only one whole number is as near, and even if it is one of two. -/
theorem nearest_unique {n d k : Nat} (hd : 0 < d) (hnear : |(n : ℚ) / d - k| ≤ 1 / 2)
    (htie : |(n : ℚ) / d - k| = 1 / 2 → k % 2 = 0) : nearest n d = k := by
  obtain ⟨hnear', htie'⟩ := nearest_spec hd n
  generalize (n : ℚ) / d = x at hnear htie hnear' htie'
  generalize nearest n d = m at hnear' htie' ⊢
  obtain ⟨hlow, hhigh⟩ := abs_le.mp hnear
  obtain ⟨hlow', hhigh'⟩ := abs_le.mp hnear'
  rcases lt_trichotomy m k with hlt | heq | hgt
  · have hstep : (m : ℚ) + 1 ≤ k := by exact_mod_cast hlt
    have heven := htie (by rw [abs_of_nonpos (by linarith)]; linarith)
    have heven' := htie' (by rw [abs_of_nonneg (by linarith)]; linarith)
    have hnext : (k : ℚ) ≤ m + 1 := by linarith
    have hnext : k ≤ m + 1 := by exact_mod_cast hnext
    omega
  · exact heq
  · have hstep : (k : ℚ) + 1 ≤ m := by exact_mod_cast hgt
    have heven := htie (by rw [abs_of_nonneg (by linarith)]; linarith)
    have heven' := htie' (by rw [abs_of_nonpos (by linarith)]; linarith)
    have hnext : (m : ℚ) ≤ k + 1 := by linarith
    have hnext : m ≤ k + 1 := by exact_mod_cast hnext
    omega

/-- What is no further from a whole number than a quotient rounded to it is rounded to it too. -/
theorem nearest_of_closer {n d n' d' : Nat} (hd : 0 < d) (hd' : 0 < d')
    (h : |(n' : ℚ) / d' - nearest n d| ≤ |(n : ℚ) / d - nearest n d|) :
    nearest n' d' = nearest n d := by
  obtain ⟨hnear, htie⟩ := nearest_spec hd n
  exact nearest_unique hd' (h.trans hnear) fun hhalf =>
    htie (le_antisymm hnear (hhalf ▸ h))

/-- No whole number is nearer. -/
theorem nearest_best {d : Nat} (hd : 0 < d) (n k : Nat) :
    |(n : ℚ) / d - nearest n d| ≤ |(n : ℚ) / d - k| := by
  obtain ⟨hnear, -⟩ := nearest_spec hd n
  generalize (n : ℚ) / d = x at hnear ⊢
  generalize nearest n d = m at hnear ⊢
  obtain ⟨hlow, hhigh⟩ := abs_le.mp hnear
  rcases lt_trichotomy k m with hlt | rfl | hgt
  · have hstep : (k : ℚ) + 1 ≤ m := by exact_mod_cast hlt
    rw [abs_of_nonneg (a := x - k) (by linarith)]
    linarith
  · exact le_refl _
  · have hstep : (m : ℚ) + 1 ≤ k := by exact_mod_cast hgt
    rw [abs_of_nonpos (a := x - k) (by linarith)]
    linarith

/-! ### To 53 significant bits -/

theorem roundDouble_eq (num den : Nat) : ∃ e : Int,
    roundDouble num den = (nearest (num * 2 ^ (-e).toNat) (den * 2 ^ e.toNat), e) := by
  unfold roundDouble nearest
  extract_lets guess scale e
  refine ⟨e, ?_⟩
  clear_value e
  simp only [scale]
  split <;> rfl

theorem log2_eq {n k : Nat} (h : 2 ^ k ≤ n) (h' : n < 2 ^ (k + 1)) : Nat.log2 n = k := by
  have hne : n ≠ 0 := by
    rintro rfl
    exact absurd h (by simp)
  exact (Nat.log2_eq_iff hne).mpr ⟨h, h'⟩

/-- The exponent of a rounding, from the sizes of its two numbers. -/
theorem roundDouble_of_log {num den a b : Nat} (guess e : Int) (ha : Nat.log2 num = a)
    (hb : Nat.log2 den = b) (hguess : (a : Int) - b - 52 = guess)
    (he : (if num * 2 ^ (-guess).toNat < den * 2 ^ guess.toNat * 2 ^ 52 then guess - 1 else guess) =
      e) :
    roundDouble num den = (nearest (num * 2 ^ (-e).toNat) (den * 2 ^ e.toNat), e) := by
  unfold roundDouble nearest
  extract_lets g scale e'
  have hg : g = guess := by
    rw [← hguess, ← ha, ← hb]
  have he' : e' = e := by
    rw [← he, ← hg]
  clear_value e'
  subst he'
  simp only [scale]
  split <;> rfl

/-- The quotient `num / den` rounded to a multiple of `2 ^ e`. -/
def onGrid (num den : Nat) (e : Int) : Nat × Int :=
  (nearest (num * 2 ^ (-e).toNat) (den * 2 ^ e.toNat), e)

/-- Numbers do not get denser than the multiples of `2 ^ -1074`. -/
def minExponent : Int := -1074

/-- The quotient of two whole numbers as `/` computes it. -/
def trueDivide (num den : Nat) : Nat × Int :=
  if (roundDouble num den).2 < minExponent then onGrid num den minExponent
  else roundDouble num den

/-- The number that a significand and an exponent stand for. -/
def dyadic (number : Nat × Int) : ℚ := number.1 * 2 ^ number.2

theorem dyadic_nonneg (number : Nat × Int) : 0 ≤ dyadic number :=
  mul_nonneg (Nat.cast_nonneg _) (zpow_nonneg (by norm_num) _)

section Quotient

variable {num den : Nat}

/-- `2 ^ e` with the powers of two on either side of a fraction. -/
theorem zpow_split (e : Int) : (2 : ℚ) ^ e * 2 ^ (-e).toNat = 2 ^ e.toNat := by
  rcases le_or_gt 0 e with h | h
  · obtain ⟨k, rfl⟩ := Int.eq_ofNat_of_zero_le h
    simp
  · obtain ⟨k, hk⟩ := Int.eq_ofNat_of_zero_le (show 0 ≤ -e by omega)
    have he : e = -(k : Int) := by omega
    subst he
    simp

/-- Comparisons of a quotient with `k * 2 ^ e`, in whole numbers. -/
theorem le_div_iff_scaled (hden : 0 < den) (k : Nat) (e : Int) :
    (k : ℚ) * 2 ^ e ≤ (num : ℚ) / den ↔ k * (den * 2 ^ e.toNat) ≤ num * 2 ^ (-e).toNat := by
  have hpos : (0 : ℚ) < den := by exact_mod_cast hden
  rw [le_div_iff₀ hpos, ← Nat.cast_le (α := ℚ)]
  push_cast
  rw [← zpow_split e, ← mul_le_mul_iff_of_pos_right
    (show (0 : ℚ) < 2 ^ (-e).toNat by positivity)]
  have hsides : (k : ℚ) * 2 ^ e * den * 2 ^ (-e).toNat =
      k * (den * (2 ^ e * 2 ^ (-e).toNat)) := by ring
  rw [hsides]

theorem div_lt_iff_scaled (hden : 0 < den) (k : Nat) (e : Int) :
    (num : ℚ) / den < k * 2 ^ e ↔ num * 2 ^ (-e).toNat < k * (den * 2 ^ e.toNat) := by
  rw [← not_le, le_div_iff_scaled hden, not_le]

/-- The significand has its 53 bits. -/
theorem roundDouble_window (hnum : 0 < num) (hden : 0 < den) :
    ∃ e : Int, roundDouble num den = (nearest (num * 2 ^ (-e).toNat) (den * 2 ^ e.toNat), e) ∧
      ((2 ^ 52 : Nat) : ℚ) * 2 ^ e ≤ (num : ℚ) / den ∧
      (num : ℚ) / den < ((2 ^ 53 : Nat) : ℚ) * 2 ^ e := by
  obtain ⟨hlow, hhigh⟩ := (Nat.log2_eq_iff hnum.ne').mp (rfl : Nat.log2 num = _)
  obtain ⟨hlow', hhigh'⟩ := (Nat.log2_eq_iff hden.ne').mp (rfl : Nat.log2 den = _)
  have hpos : (0 : ℚ) < den := by exact_mod_cast hden
  have htwo : (2 : ℚ) ≠ 0 := by norm_num
  obtain ⟨a, ha⟩ : ∃ a, Nat.log2 num = a := ⟨_, rfl⟩
  obtain ⟨b, hb⟩ : ∃ b, Nat.log2 den = b := ⟨_, rfl⟩
  obtain ⟨guess, hguess⟩ : ∃ guess : Int, (a : Int) - b - 52 = guess := ⟨_, rfl⟩
  rw [ha] at hlow hhigh
  rw [hb] at hlow' hhigh'
  have hbelow : (num : ℚ) / den < ((2 ^ 53 : Nat) : ℚ) * 2 ^ guess := by
    rw [div_lt_iff₀ hpos]
    have hscale : ((2 ^ 53 : Nat) : ℚ) * 2 ^ guess * 2 ^ b = 2 ^ (a + 1) := by
      have hexp : (53 : Int) + guess + b = (a + 1 : Nat) := by omega
      rw [← zpow_natCast (2 : ℚ) (a + 1), ← hexp, zpow_add₀ htwo, zpow_add₀ htwo]
      norm_num
    calc (num : ℚ) < 2 ^ (a + 1) := by exact_mod_cast hhigh
      _ = ((2 ^ 53 : Nat) : ℚ) * 2 ^ guess * 2 ^ b := hscale.symm
      _ ≤ ((2 ^ 53 : Nat) : ℚ) * 2 ^ guess * den := by
          gcongr
          exact_mod_cast hlow'
  have habove : ((2 ^ 52 : Nat) : ℚ) * 2 ^ (guess - 1) ≤ (num : ℚ) / den := by
    rw [le_div_iff₀ hpos]
    have hscale : ((2 ^ 52 : Nat) : ℚ) * 2 ^ (guess - 1) * 2 ^ (b + 1) = 2 ^ a := by
      have hexp : (52 : Int) + (guess - 1) + (b + 1 : Nat) = a := by omega
      rw [← zpow_natCast (2 : ℚ) a, ← hexp, zpow_add₀ htwo, zpow_add₀ htwo, zpow_natCast]
      norm_num
    calc ((2 ^ 52 : Nat) : ℚ) * 2 ^ (guess - 1) * den
        ≤ ((2 ^ 52 : Nat) : ℚ) * 2 ^ (guess - 1) * 2 ^ (b + 1) := by
          gcongr
          exact_mod_cast hhigh'.le
      _ = 2 ^ a := hscale
      _ ≤ num := by exact_mod_cast hlow
  have hcut := @div_lt_iff_scaled num den hden (2 ^ 52) guess
  rw [Nat.mul_comm (2 ^ 52)] at hcut
  by_cases hsmall : (num : ℚ) / den < ((2 ^ 52 : Nat) : ℚ) * 2 ^ guess
  · refine ⟨guess - 1, roundDouble_of_log guess _ ha hb hguess (if_pos (hcut.mp hsmall)), habove, ?_⟩
    have hdouble : ((2 ^ 53 : Nat) : ℚ) * 2 ^ (guess - 1) = ((2 ^ 52 : Nat) : ℚ) * 2 ^ guess := by
      rw [zpow_sub₀ htwo]
      norm_num
      ring
    rw [hdouble]
    exact hsmall
  · refine ⟨guess, roundDouble_of_log guess _ ha hb hguess (if_neg ?_), not_lt.mp hsmall, hbelow⟩
    exact fun h => hsmall (hcut.mpr h)

/-- Of a quotient, the grid it is rounded to: 53 bits, or the finest grid there is. -/
theorem trueDivide_window (hnum : 0 < num) (hden : 0 < den) :
    ∃ e : Int, trueDivide num den = onGrid num den e ∧ minExponent ≤ e ∧
      (e = minExponent ∨ ((2 ^ 52 : Nat) : ℚ) * 2 ^ e ≤ (num : ℚ) / den) ∧
      (num : ℚ) / den < ((2 ^ 53 : Nat) : ℚ) * 2 ^ e := by
  obtain ⟨e, hround, hlow, hhigh⟩ := roundDouble_window hnum hden
  unfold trueDivide
  rw [hround]
  by_cases hfine : e < minExponent
  · rw [if_pos hfine]
    have hpow : (2 : ℚ) ^ e ≤ 2 ^ minExponent := zpow_le_zpow_right₀ (by norm_num) hfine.le
    refine ⟨minExponent, rfl, le_refl _, Or.inl rfl, lt_of_lt_of_le hhigh ?_⟩
    exact mul_le_mul_of_nonneg_left hpow (Nat.cast_nonneg _)
  · rw [if_neg hfine]
    exact ⟨e, rfl, not_lt.mp hfine, Or.inr hlow, hhigh⟩

theorem nearest_zero (d : Nat) (hd : 0 < d) : nearest 0 d = 0 := by
  have hle := nearest_le 0 d
  rcases Nat.eq_zero_or_pos (nearest 0 d) with h | h
  · exact h
  · have hprod := Nat.mul_pos h hd
    omega

theorem trueDivide_zero (hden : 0 < den) : dyadic (trueDivide 0 den) = 0 := by
  obtain ⟨e, hround⟩ := roundDouble_eq 0 den
  have hzero : (trueDivide 0 den).1 = 0 := by
    unfold trueDivide
    rw [hround]
    split
    · unfold onGrid
      rw [Nat.zero_mul]
      exact nearest_zero _ (Nat.mul_pos hden (Nat.two_pow_pos _))
    · rw [Nat.zero_mul]
      exact nearest_zero _ (Nat.mul_pos hden (Nat.two_pow_pos _))
  unfold dyadic
  rw [hzero, Nat.cast_zero, zero_mul]

/-- A significand has no more than 53 bits, or is the first number that has more. -/
theorem trueDivide_le (hden : 0 < den) : (trueDivide num den).1 ≤ 2 ^ 53 := by
  rcases Nat.eq_zero_or_pos num with rfl | hnum
  · have hzero := trueDivide_zero hden
    rcases mul_eq_zero.mp hzero with hnumber | hpow
    · rw [Nat.cast_eq_zero.mp hnumber]
      exact Nat.zero_le _
    · exact absurd hpow (zpow_ne_zero _ (by norm_num))
  · obtain ⟨e, hdivide, -, -, hhigh⟩ := trueDivide_window hnum hden
    rw [hdivide]
    exact nearest_le_of_lt ((div_lt_iff_scaled hden _ e).mp hhigh)

/-- The larger quotient is not rounded to less. -/
theorem trueDivide_mono {num' den' : Nat} (hden : 0 < den) (hden' : 0 < den')
    (h : (num : ℚ) / den ≤ (num' : ℚ) / den') :
    dyadic (trueDivide num den) ≤ dyadic (trueDivide num' den') := by
  rcases Nat.eq_zero_or_pos num with rfl | hnum
  · rw [trueDivide_zero hden]
    exact dyadic_nonneg _
  have hpos : (0 : ℚ) < den := by exact_mod_cast hden
  have hpos' : (0 : ℚ) < den' := by exact_mod_cast hden'
  have hquot : (0 : ℚ) < num / den := div_pos (by exact_mod_cast hnum) hpos
  have hnum' : 0 < num' := by
    rcases Nat.eq_zero_or_pos num' with rfl | hnum'
    · rw [Nat.cast_zero, zero_div] at h
      exact absurd h (not_le.mpr hquot)
    · exact hnum'
  obtain ⟨e, hdivide, hfine, hlow, hhigh⟩ := trueDivide_window hnum hden
  obtain ⟨e', hdivide', hfine', hlow', hhigh'⟩ := trueDivide_window hnum' hden'
  rw [hdivide, hdivide']
  unfold dyadic onGrid
  dsimp only
  have hgrid : 0 < den * 2 ^ e.toNat := Nat.mul_pos hden (Nat.two_pow_pos _)
  have hgrid' : 0 < den' * 2 ^ e'.toNat := Nat.mul_pos hden' (Nat.two_pow_pos _)
  rcases lt_trichotomy e e' with hlt | rfl | hgt
  · -- A power of two lies between the two.
    have hbinade' : ((2 ^ 52 : Nat) : ℚ) * 2 ^ e' ≤ (num' : ℚ) / den' := by
      rcases hlow' with hfinest | hlow'
      · omega
      · exact hlow'
    have hsmall := nearest_le_of_lt ((div_lt_iff_scaled hden _ e).mp hhigh)
    have hlarge := le_nearest_of_le hgrid' ((le_div_iff_scaled hden' _ e').mp hbinade')
    have hpow : (2 : ℚ) ^ (e + 1) ≤ 2 ^ e' := zpow_le_zpow_right₀ (by norm_num) (by omega)
    have hstep : (2 : ℚ) ^ (e + 1) = 2 ^ e * 2 := zpow_add_one₀ (by norm_num) e
    calc (nearest (num * 2 ^ (-e).toNat) (den * 2 ^ e.toNat) : ℚ) * 2 ^ e
        ≤ ((2 ^ 53 : Nat) : ℚ) * 2 ^ e := by
          gcongr
      _ = ((2 ^ 52 : Nat) : ℚ) * 2 ^ (e + 1) := by
          rw [hstep]
          norm_num
          ring
      _ ≤ ((2 ^ 52 : Nat) : ℚ) * 2 ^ e' := by gcongr
      _ ≤ (nearest (num' * 2 ^ (-e').toNat) (den' * 2 ^ e'.toNat) : ℚ) * 2 ^ e' := by
          gcongr
  · -- On the same grid it is the rounding to a whole number.
    have hcross : num * den' ≤ num' * den := by
      rw [div_le_div_iff₀ hpos hpos'] at h
      exact_mod_cast h
    have hle : nearest (num * 2 ^ (-e).toNat) (den * 2 ^ e.toNat) ≤
        nearest (num' * 2 ^ (-e).toNat) (den' * 2 ^ e.toNat) := by
      apply nearest_mono hgrid hgrid'
      calc num * 2 ^ (-e).toNat * (den' * 2 ^ e.toNat)
          = num * den' * (2 ^ (-e).toNat * 2 ^ e.toNat) := by ring
        _ ≤ num' * den * (2 ^ (-e).toNat * 2 ^ e.toNat) := by gcongr
        _ = num' * 2 ^ (-e).toNat * (den * 2 ^ e.toNat) := by ring
    gcongr
  · -- The larger quotient is not on the finer grid.
    exfalso
    have hbinade : ((2 ^ 52 : Nat) : ℚ) * 2 ^ e ≤ (num : ℚ) / den := by
      rcases hlow with hfinest | hlow
      · omega
      · exact hlow
    have hpow : (2 : ℚ) ^ (e' + 1) ≤ 2 ^ e := zpow_le_zpow_right₀ (by norm_num) (by omega)
    have hstep : (2 : ℚ) ^ (e' + 1) = 2 ^ e' * 2 := zpow_add_one₀ (by norm_num) e'
    have hcycle : (num' : ℚ) / den' < (num : ℚ) / den := by
      calc (num' : ℚ) / den' < ((2 ^ 53 : Nat) : ℚ) * 2 ^ e' := hhigh'
        _ = ((2 ^ 52 : Nat) : ℚ) * 2 ^ (e' + 1) := by
            rw [hstep]
            norm_num
            ring
        _ ≤ ((2 ^ 52 : Nat) : ℚ) * 2 ^ e := by gcongr
        _ ≤ (num : ℚ) / den := hbinade
    exact absurd h (not_le.mpr hcycle)

/-- A quotient below one is no further than `2 ^ -54` from its rounding. -/
theorem trueDivide_near (h : num < den) :
    |dyadic (trueDivide num den) - (num : ℚ) / den| ≤ 1 / 2 ^ 54 := by
  have hden : 0 < den := Nat.zero_lt_of_lt h
  rcases Nat.eq_zero_or_pos num with rfl | hnum
  · rw [trueDivide_zero hden, Nat.cast_zero, zero_div, sub_zero, abs_zero]
    norm_num
  have hpos : (0 : ℚ) < den := by exact_mod_cast hden
  have hone : (num : ℚ) / den < 1 := (div_lt_one hpos).mpr (by exact_mod_cast h)
  obtain ⟨e, hdivide, -, hlow, -⟩ := trueDivide_window hnum hden
  have hexp : e ≤ -53 := by
    rcases hlow with hfinest | hlow
    · rw [hfinest]
      decide
    · by_contra hlarge
      have hpow : (2 : ℚ) ^ (-52 : Int) ≤ 2 ^ e := zpow_le_zpow_right₀ (by norm_num) (by omega)
      have hunit : ((2 ^ 52 : Nat) : ℚ) * 2 ^ (-52 : Int) = 1 := by norm_num
      have hbound : (1 : ℚ) ≤ ((2 ^ 52 : Nat) : ℚ) * 2 ^ e := by
        rw [← hunit]
        exact mul_le_mul_of_nonneg_left hpow (Nat.cast_nonneg _)
      exact absurd hone (not_lt.mpr (le_trans hbound hlow))
  have hdown : e.toNat = 0 := Int.toNat_of_nonpos (by omega)
  have hscale : (2 : ℚ) ^ e * 2 ^ (-e).toNat = 1 := by
    rw [zpow_split, hdown, pow_zero]
  have hgrid : (2 : ℚ) ^ e ≤ 2 ^ (-53 : Int) := zpow_le_zpow_right₀ (by norm_num) hexp
  have hfine : (0 : ℚ) < 2 ^ e := zpow_pos (by norm_num) e
  rw [hdivide]
  unfold dyadic onGrid
  rw [hdown, pow_zero, Nat.mul_one]
  obtain ⟨hover, hunder⟩ := nearest_near hden (num * 2 ^ (-e).toNat)
  generalize nearest (num * 2 ^ (-e).toNat) den = m at hover hunder
  have hover' : 2 * ((m : ℚ) * den) ≤ 2 * (num * 2 ^ (-e).toNat) + den := by exact_mod_cast hover
  have hunder' : 2 * ((num : ℚ) * 2 ^ (-e).toNat) ≤ 2 * (m * den) + den := by exact_mod_cast hunder
  have hquot : (num : ℚ) / den * den = num := div_mul_cancel₀ _ hpos.ne'
  -- Twice the distance, scaled by the denominator, is within one step of the grid.
  have habove : 2 * ((m : ℚ) * 2 ^ e - num / den) * den ≤ 2 ^ e * den := by
    have hscaled := mul_le_mul_of_nonneg_left hover' hfine.le
    have hleft : (2 : ℚ) ^ e * (2 * (num * 2 ^ (-e).toNat) + den) =
        2 * num * (2 ^ e * 2 ^ (-e).toNat) + 2 ^ e * den := by ring
    rw [hleft, hscale] at hscaled
    linarith
  have hbelow : 2 * ((num : ℚ) / den - m * 2 ^ e) * den ≤ 2 ^ e * den := by
    have hscaled := mul_le_mul_of_nonneg_left hunder' hfine.le
    have hleft : (2 : ℚ) ^ e * (2 * (num * 2 ^ (-e).toNat)) =
        2 * num * (2 ^ e * 2 ^ (-e).toNat) := by ring
    rw [hleft, hscale] at hscaled
    linarith
  have hhalf : (2 : ℚ) ^ (-53 : Int) = 2 * (1 / 2 ^ 54) := by norm_num
  rw [hhalf] at hgrid
  show |(m : ℚ) * 2 ^ e - num / den| ≤ _
  rw [abs_le]
  constructor
  · have hle := le_of_mul_le_mul_right hbelow hpos
    linarith
  · have hle := le_of_mul_le_mul_right habove hpos
    linarith

/-- Different quotients of numbers that are not too large stay different. -/
theorem trueDivide_lt {num' den' : Nat} (h : num < den) (h' : num' < den')
    (hsize : den * den' < 2 ^ 53) (hlt : (num : ℚ) / den < (num' : ℚ) / den') :
    dyadic (trueDivide num den) < dyadic (trueDivide num' den') := by
  have hpos : (0 : ℚ) < den := by exact_mod_cast Nat.zero_lt_of_lt h
  have hpos' : (0 : ℚ) < den' := by exact_mod_cast Nat.zero_lt_of_lt h'
  have hprod : (0 : ℚ) < den * den' := mul_pos hpos hpos'
  have hcross : num * den' + 1 ≤ num' * den := by
    rw [div_lt_div_iff₀ hpos hpos'] at hlt
    exact_mod_cast hlt
  have hgap : 1 / ((den : ℚ) * den') ≤ num' / den' - num / den := by
    have hdiff : (num' : ℚ) / den' - num / den = (num' * den - num * den') / (den * den') := by
      field_simp
    rw [hdiff]
    gcongr
    have hcast : (num : ℚ) * den' + 1 ≤ num' * den := by exact_mod_cast hcross
    linarith
  have hwide : 1 / (2 : ℚ) ^ 53 < 1 / ((den : ℚ) * den') := by
    gcongr
    exact_mod_cast hsize
  have hnear := abs_le.mp (trueDivide_near h)
  have hnear' := abs_le.mp (trueDivide_near h')
  have hhalf : (1 : ℚ) / 2 ^ 53 = 1 / 2 ^ 54 + 1 / 2 ^ 54 := by norm_num
  linarith [hnear.2, hnear'.1]

/-- The quotient in units of the grid. -/
theorem scaled_quotient (hden : 0 < den) (e : Int) :
    ((num * 2 ^ (-e).toNat : Nat) : ℚ) / (den * 2 ^ e.toNat : Nat) = num / den / 2 ^ e := by
  have hpos : (den : ℚ) ≠ 0 := by exact_mod_cast hden.ne'
  have hup : (2 : ℚ) ^ e ≠ 0 := zpow_ne_zero e (by norm_num)
  have hdown : (2 : ℚ) ^ (-e).toNat ≠ 0 := by positivity
  push_cast
  rw [← zpow_split e]
  field_simp

/-- How far a rounded quotient is off, in units of its grid. -/
theorem onGrid_distance (hden : 0 < den) (e : Int) (k : Nat) :
    |(num : ℚ) / den - k * 2 ^ e| =
      2 ^ e * |((num * 2 ^ (-e).toNat : Nat) : ℚ) / (den * 2 ^ e.toNat : Nat) - k| := by
  have hpos : (0 : ℚ) < 2 ^ e := zpow_pos (by norm_num) e
  rw [scaled_quotient hden, ← abs_of_pos hpos, ← abs_mul, abs_of_pos hpos, mul_sub,
    mul_div_cancel₀ _ hpos.ne', mul_comm]

theorem dyadic_onGrid (num den : Nat) (e : Int) : dyadic (onGrid num den e) =
    (nearest (num * 2 ^ (-e).toNat) (den * 2 ^ e.toNat) : Nat) * 2 ^ e := rfl

theorem grid_pos (hden : 0 < den) (e : Int) : 0 < den * 2 ^ e.toNat :=
  Nat.mul_pos hden (Nat.two_pow_pos _)

/-- A rounded quotient is off by half a step of its grid at most. -/
theorem onGrid_near (hden : 0 < den) (e : Int) :
    |(num : ℚ) / den - dyadic (onGrid num den e)| ≤ 2 ^ e * (1 / 2) := by
  have hnear := (nearest_spec (grid_pos hden e) (num * 2 ^ (-e).toNat)).1
  rw [dyadic_onGrid, onGrid_distance hden]
  gcongr

/-- What is no further from a rounded quotient than the quotient itself is rounded to it too. -/
theorem onGrid_closer {num' den' : Nat} (hden : 0 < den) (hden' : 0 < den') {e : Int}
    (hclose : |(num' : ℚ) / den' - dyadic (onGrid num den e)| ≤
      |(num : ℚ) / den - dyadic (onGrid num den e)|) :
    onGrid num' den' e = onGrid num den e := by
  have hunit : (0 : ℚ) < 2 ^ e := zpow_pos (by norm_num) e
  rw [dyadic_onGrid, onGrid_distance hden, onGrid_distance hden'] at hclose
  have hcloser := le_of_mul_le_mul_left hclose hunit
  rw [onGrid, onGrid, nearest_of_closer (grid_pos hden e) (grid_pos hden' e) hcloser]

/-- A quotient of normal size is no further off than its `2 ^ 53`rd part. -/
theorem trueDivide_relative (hnum : 0 < num) (hden : 0 < den)
    (hlow : ((2 ^ 52 : Nat) : ℚ) * 2 ^ minExponent ≤ (num : ℚ) / den) :
    2 ^ 53 * |(num : ℚ) / den - dyadic (trueDivide num den)| ≤ num / den := by
  obtain ⟨e, hdivide, -, hnormal, -⟩ := trueDivide_window hnum hden
  have hbinade : ((2 ^ 52 : Nat) : ℚ) * 2 ^ e ≤ (num : ℚ) / den := by
    rcases hnormal with rfl | hnormal
    · exact hlow
    · exact hnormal
  have hnear := @onGrid_near num den hden e
  rw [hdivide]
  calc 2 ^ 53 * |(num : ℚ) / den - dyadic (onGrid num den e)|
      ≤ 2 ^ 53 * (2 ^ e * (1 / 2)) := by gcongr
    _ = ((2 ^ 52 : Nat) : ℚ) * 2 ^ e := by
        push_cast
        ring
    _ ≤ num / den := hbinade

/-- What is not of normal size is rounded on the finest grid. -/
theorem trueDivide_fine (hnum : 0 < num) (hden : 0 < den)
    (hsmall : (num : ℚ) / den < ((2 ^ 53 : Nat) : ℚ) * 2 ^ minExponent) :
    trueDivide num den = onGrid num den minExponent := by
  obtain ⟨e, hdivide, hfine, hnormal, -⟩ := trueDivide_window hnum hden
  rcases hnormal with rfl | hnormal
  · exact hdivide
  · rcases eq_or_lt_of_le hfine with rfl | hcoarse
    · exact hdivide
    · exfalso
      have hpow : (2 : ℚ) ^ (minExponent + 1) ≤ 2 ^ e :=
        zpow_le_zpow_right₀ (by norm_num) (by omega)
      rw [zpow_add_one₀ (by norm_num)] at hpow
      have hbound : ((2 ^ 53 : Nat) : ℚ) * 2 ^ minExponent ≤ num / den := by
        calc ((2 ^ 53 : Nat) : ℚ) * 2 ^ minExponent
            = ((2 ^ 52 : Nat) : ℚ) * (2 ^ minExponent * 2) := by
              push_cast
              ring
          _ ≤ ((2 ^ 52 : Nat) : ℚ) * 2 ^ e := by gcongr
          _ ≤ num / den := hnormal
      exact absurd hsmall (not_lt.mpr hbound)

/-- Below the normal size, what is no further from a rounded quotient than the quotient itself is
    rounded to it too. -/
theorem trueDivide_of_closer {num' den' : Nat} (hnum : 0 < num) (hden : 0 < den)
    (hnum' : 0 < num') (hden' : 0 < den')
    (hsmall : (num : ℚ) / den < ((2 ^ 52 : Nat) : ℚ) * 2 ^ minExponent)
    (hclose : |(num' : ℚ) / den' - dyadic (trueDivide num den)| ≤
      |(num : ℚ) / den - dyadic (trueDivide num den)|) :
    dyadic (trueDivide num' den') = dyadic (trueDivide num den) := by
  have hunit : (0 : ℚ) < 2 ^ minExponent := zpow_pos (by norm_num) _
  have hk : nearest (num * 2 ^ (-minExponent).toNat) (den * 2 ^ minExponent.toNat) ≤ 2 ^ 52 :=
    nearest_le_of_lt ((div_lt_iff_scaled hden (2 ^ 52) minExponent).mp hsmall)
  have hk : dyadic (onGrid num den minExponent) ≤ ((2 ^ 52 : Nat) : ℚ) * 2 ^ minExponent := by
    rw [dyadic_onGrid]
    gcongr
  have hnear := @onGrid_near num den hden minExponent
  have hfine : (num : ℚ) / den < ((2 ^ 53 : Nat) : ℚ) * 2 ^ minExponent := by
    exact hsmall.trans_le (mul_le_mul_of_nonneg_right (by norm_num) hunit.le)
  rw [trueDivide_fine hnum hden hfine] at hclose ⊢
  have hfine' : (num' : ℚ) / den' < ((2 ^ 53 : Nat) : ℚ) * 2 ^ minExponent := by
    have hreach := (abs_le.mp (hclose.trans hnear)).2
    generalize (2 : ℚ) ^ minExponent = unit at hk hreach hunit ⊢
    push_cast at hk ⊢
    linarith
  rw [trueDivide_fine hnum' hden' hfine', onGrid_closer hden hden' hclose]

end Quotient

end AgenticPlatform
