import Mathlib.Algebra.Order.Field.Rat
import Mathlib.Algebra.Order.Field.Power
import Mathlib.Tactic.FieldSimp
import Mathlib.Tactic.Positivity
import Mathlib.Tactic.Linarith
import Mathlib.Tactic.NormNum
import Mathlib.Tactic.Ring
import UnsafeAudit.Decimal.Binary64

/-!
# Rounding to binary floating point

What a fraction is rounded to depends on its value only (`ofRatio_congr`). A
number in normal form is what its own value is rounded to (`ofRatio_magnitude`),
and a fraction that is rounded to a finite number is small (`lt_of_ofRatio`).
-/

namespace UnsafeAudit.Binary64

variable {num den num' den' n d k m : Nat} {e e' : Int} {v : ℚ} {x : Binary64} {negative : Bool}

-- ---------------------------------------------------------------------------
-- Scaled fractions
-- ---------------------------------------------------------------------------

theorem natPow_natAbs_of_nonneg (b : Nat) (h : 0 ≤ e) : ((b ^ e.natAbs : Nat) : ℚ) = (b : ℚ) ^ e := by
  obtain ⟨k, rfl⟩ := Int.eq_ofNat_of_zero_le h
  simp

theorem natPow_natAbs_of_neg (b : Nat) (h : e < 0) :
    ((b ^ e.natAbs : Nat) : ℚ) = ((b : ℚ) ^ e)⁻¹ := by
  obtain ⟨k, rfl⟩ : ∃ k : Nat, e = -k := ⟨e.natAbs, by omega⟩
  simp

theorem scaled_den_pos (h : 0 < den) (e : Int) : 0 < (scaled num den e).2 := by
  rw [scaled]
  split
  · exact h
  · exact Nat.mul_pos h (Nat.pow_pos (by decide))

theorem scaled_value (num den : Nat) (e : Int) :
    ((scaled num den e).1 : ℚ) / (scaled num den e).2 = num / den * (2 : ℚ) ^ (-e) := by
  rw [scaled]
  split
  · rename_i hneg
    have hpow := natPow_natAbs_of_neg 2 hneg
    simp only [Nat.pow_eq, Nat.cast_mul, hpow, zpow_neg, Nat.cast_ofNat]
    ring
  · rename_i hnonneg
    have hpow := natPow_natAbs_of_nonneg 2 (Int.not_lt.mp hnonneg)
    simp only [Nat.pow_eq, Nat.cast_mul, hpow, zpow_neg, Nat.cast_ofNat]
    rw [div_mul_eq_div_div, div_eq_mul_inv _ ((2 : ℚ) ^ e)]

theorem scaled_mul (num den : Nat) (e : Int) (k : Nat) :
    scaled (k * num) (k * den) e = (k * (scaled num den e).1, k * (scaled num den e).2) := by
  rw [scaled, scaled]
  split <;> simp [Nat.mul_assoc]

theorem le_scaled_div_iff (h : 0 < den) (e : Int) (k : Nat) :
    k ≤ (scaled num den e).1 / (scaled num den e).2 ↔ (k : ℚ) * 2 ^ e ≤ num / den := by
  have hpos : (0 : ℚ) < (scaled num den e).2 := Nat.cast_pos.mpr (scaled_den_pos h e)
  rw [Nat.le_div_iff_mul_le (scaled_den_pos h e), ← Nat.cast_le (α := ℚ), Nat.cast_mul,
    ← le_div_iff₀ hpos, scaled_value, zpow_neg, ← div_eq_mul_inv, le_div_iff₀ (by positivity)]

-- ---------------------------------------------------------------------------
-- Exponents
-- ---------------------------------------------------------------------------

/-- The exponent at which a value has a mantissa of 53 bits, or the least one. -/
structure IsExponentOf (v : ℚ) (e : Int) : Prop where
  least : -1074 ≤ e
  lt : v < 2 ^ (53 + e)
  le : e = -1074 ∨ 2 ^ (52 + e) ≤ v

theorem IsExponentOf.le_of_le (h : IsExponentOf v e) (h' : IsExponentOf v e') : e ≤ e' := by
  rcases h.le with rfl | hle
  · exact h'.least
  · have hlt : (2 : ℚ) ^ (52 + e) < 2 ^ (53 + e') := lt_of_le_of_lt hle h'.lt
    have := (zpow_lt_zpow_iff_right₀ (by norm_num)).mp hlt
    omega

theorem IsExponentOf.unique (h : IsExponentOf v e) (h' : IsExponentOf v e') : e = e' :=
  Int.le_antisymm (h.le_of_le h') (h'.le_of_le h)

/-- The logarithms of a fraction's parts say between which powers of two it lies. -/
theorem log2_bounds (hnum : 0 < num) (hden : 0 < den) :
    (2 : ℚ) ^ ((num.log2 : Int) - den.log2 - 1) ≤ num / den ∧
      (num / den : ℚ) < 2 ^ ((num.log2 : Int) - den.log2 + 1) := by
  have hlow (n : Nat) (hn : 0 < n) : (2 : ℚ) ^ (n.log2 : Int) ≤ n := by
    exact_mod_cast Nat.log2_self_le (Nat.pos_iff_ne_zero.mp hn)
  have hhigh (n : Nat) : (n : ℚ) < 2 ^ ((n.log2 : Int) + 1) := by
    exact_mod_cast Nat.lt_log2_self (n := n)
  have hpos : (0 : ℚ) < den := Nat.cast_pos.mpr hden
  constructor
  · rw [le_div_iff₀ hpos]
    calc (2 : ℚ) ^ ((num.log2 : Int) - den.log2 - 1) * den
        ≤ 2 ^ ((num.log2 : Int) - den.log2 - 1) * 2 ^ ((den.log2 : Int) + 1) := by
          gcongr
          exact (hhigh den).le
      _ = 2 ^ (num.log2 : Int) := by
          rw [← zpow_add₀ two_ne_zero]
          congr 1
          omega
      _ ≤ num := hlow num hnum
  · rw [div_lt_iff₀ hpos]
    calc (num : ℚ) < 2 ^ ((num.log2 : Int) + 1) := hhigh num
      _ = 2 ^ ((num.log2 : Int) - den.log2 + 1) * 2 ^ (den.log2 : Int) := by
          rw [← zpow_add₀ two_ne_zero]
          congr 1
          omega
      _ ≤ 2 ^ ((num.log2 : Int) - den.log2 + 1) * den := by
          gcongr
          exact hlow den hden

theorem leastMantissa_eq : ((leastMantissa : Nat) : ℚ) = 2 ^ (52 : Int) := by
  norm_num [leastMantissa]

theorem leastMantissa_mul (e : Int) : (leastMantissa : ℚ) * 2 ^ e = 2 ^ (52 + e) := by
  rw [leastMantissa_eq, ← zpow_add₀ two_ne_zero]

theorem two_leastMantissa_mul (e : Int) : ((2 * leastMantissa : Nat) : ℚ) * 2 ^ e = 2 ^ (53 + e) := by
  rw [Nat.cast_mul, mul_assoc, leastMantissa_mul, Nat.cast_ofNat, ← zpow_one_add₀ two_ne_zero]
  congr 1
  omega

theorem isExponentOf_exponentFor (hnum : 0 < num) (hden : 0 < den) :
    IsExponentOf (num / den) (exponentFor num den) := by
  obtain ⟨hlow, hhigh⟩ := log2_bounds hnum hden
  rw [exponentFor]
  obtain ⟨guess, hguess⟩ : ∃ guess : Int, (num.log2 : Int) - den.log2 - 52 = guess := ⟨_, rfl⟩
  rw [hguess]
  rw [show (num.log2 : Int) - den.log2 - 1 = 52 + (guess - 1) by omega] at hlow
  rw [show (num.log2 : Int) - den.log2 + 1 = 53 + guess by omega] at hhigh
  have hnot : ¬ 2 * leastMantissa ≤ (scaled num den guess).1 / (scaled num den guess).2 := by
    rw [le_scaled_div_iff hden, two_leastMantissa_mul, not_le]
    exact hhigh
  have hiff : (scaled num den guess).1 / (scaled num den guess).2 < leastMantissa ↔
      (num / den : ℚ) < 2 ^ (52 + guess) := by
    rw [← not_le, le_scaled_div_iff hden, leastMantissa_mul, not_le]
  -- the guess is right, or it is one too many
  obtain ⟨e, he, hle, hlt⟩ : ∃ e, (if (scaled num den guess).1 / (scaled num den guess).2 <
      leastMantissa then guess - 1 else guess) = e ∧
      (2 : ℚ) ^ (52 + e) ≤ num / den ∧ (num / den : ℚ) < 2 ^ (53 + e) := by
    split
    · rename_i hless
      refine ⟨_, rfl, hlow, ?_⟩
      rw [show 53 + (guess - 1) = 52 + guess by omega]
      exact hiff.mp hless
    · rename_i hmore
      exact ⟨_, rfl, not_lt.mp fun h => hmore (hiff.mpr h), hhigh⟩
  simp only [ge_iff_le, hnot, if_false, he]
  refine ⟨Int.le_max_right _ _, ?_, ?_⟩
  · refine lt_of_lt_of_le hlt (zpow_le_zpow_right₀ (by norm_num) ?_)
    omega
  · rcases Int.le_total e (-1074) with h | h
    · exact .inl (Int.max_eq_right h)
    · rw [Int.max_eq_left h]
      exact .inr hle

-- ---------------------------------------------------------------------------
-- Values
-- ---------------------------------------------------------------------------

theorem roundRatio_mul (h : 0 < k) (n d : Nat) : roundRatio (k * n) (k * d) = roundRatio n d := by
  have hless : 2 * (k * (n % d)) < k * d ↔ 2 * (n % d) < d := by
    rw [Nat.mul_left_comm, Nat.mul_lt_mul_left h]
  have hmore : k * d < 2 * (k * (n % d)) ↔ d < 2 * (n % d) := by
    rw [Nat.mul_left_comm, Nat.mul_lt_mul_left h]
  simp only [roundRatio, Nat.mul_div_mul_left _ _ h, Nat.mul_mod_mul_left, hless, hmore]

theorem roundRatio_of_mul (m : Nat) (h : 0 < d) : roundRatio (m * d) d = m := by
  simp [roundRatio, Nat.mul_div_cancel _ h, h]

theorem exponentFor_mul (h : 0 < k) (hnum : 0 < num) (hden : 0 < den) :
    exponentFor (k * num) (k * den) = exponentFor num den := by
  have hk : (k : ℚ) ≠ 0 := Nat.cast_ne_zero.mpr h.ne'
  have hscaled := isExponentOf_exponentFor (Nat.mul_pos h hnum) (Nat.mul_pos h hden)
  rw [Nat.cast_mul, Nat.cast_mul, mul_div_mul_left _ _ hk] at hscaled
  exact hscaled.unique (isExponentOf_exponentFor hnum hden)

theorem ofRatio_mul (h : 0 < k) (hden : 0 < den) (negative : Bool) (num : Nat) :
    ofRatio negative (k * num) (k * den) = ofRatio negative num den := by
  by_cases hnum : num = 0
  · simp [ofRatio, hnum]
  · have hpos : 0 < num := Nat.pos_of_ne_zero hnum
    have hboth : k * num ≠ 0 := Nat.mul_ne_zero h.ne' hnum
    rw [ofRatio, ofRatio, if_neg hnum, if_neg hboth, exponentFor_mul h hpos hden]
    simp only [scaled_mul, roundRatio_mul h]

theorem ofRatio_congr (hden : 0 < den) (hden' : 0 < den') (h : num * den' = num' * den)
    (negative : Bool) : ofRatio negative num den = ofRatio negative num' den' := by
  rw [← ofRatio_mul hden' hden, ← ofRatio_mul hden hden', Nat.mul_comm den' num, h,
    Nat.mul_comm num' den, Nat.mul_comm den' den]

-- ---------------------------------------------------------------------------
-- Numbers in normal form
-- ---------------------------------------------------------------------------

/-- The form of the finite numbers that fractions are rounded to. -/
def IsNormal : Binary64 → Prop
  | .finite _ m e => m < 2 * leastMantissa ∧ -1074 ≤ e ∧ e ≤ 971 ∧ (leastMantissa ≤ m ∨ e = -1074)
  | _ => False

instance : DecidablePred IsNormal
  | .finite _ m e => inferInstanceAs (Decidable (m < 2 * leastMantissa ∧ -1074 ≤ e ∧ e ≤ 971 ∧
      (leastMantissa ≤ m ∨ e = -1074)))
  | .infinite _ => .isFalse nofun
  | .nan => .isFalse nofun

/-- A positive fraction is rounded at its exponent, or at the next one if its mantissa becomes too
large for that. -/
theorem of_ofRatio (hnum : 0 < num)
    (h : ofRatio negative num den = .finite negative m e) :
    e ≤ 971 ∧ (e = exponentFor num den ∧ m ≠ 2 * leastMantissa ∧
        m = roundRatio (scaled num den e).1 (scaled num den e).2 ∨
      e = exponentFor num den + 1 ∧ m = leastMantissa) := by
  rw [ofRatio, if_neg hnum.ne'] at h
  simp only [] at h
  by_cases hcarry : roundRatio (scaled num den (exponentFor num den)).1
      (scaled num den (exponentFor num den)).2 = 2 * leastMantissa
  · simp only [hcarry, if_true] at h
    split at h
    · cases h
    · cases h
      exact ⟨by omega, .inr ⟨rfl, rfl⟩⟩
  · simp only [hcarry, if_false] at h
    split at h
    · cases h
    · cases h
      exact ⟨by omega, .inl ⟨rfl, hcarry, rfl⟩⟩

theorem lt_of_ofRatio (hden : 0 < den) (h : ofRatio negative num den = .finite negative m e) :
    (num / den : ℚ) < 2 ^ (1024 : Int) := by
  rcases Nat.eq_zero_or_pos num with rfl | hnum
  · rw [Nat.cast_zero, zero_div]
    positivity
  · obtain ⟨hgreatest, hexponent⟩ := of_ofRatio hnum h
    refine lt_of_lt_of_le (isExponentOf_exponentFor hnum hden).lt
      (zpow_le_zpow_right₀ (by norm_num) ?_)
    rcases hexponent with ⟨rfl, -⟩ | ⟨rfl, -⟩ <;> omega

theorem magnitude_value (negative : Bool) (m : Nat) (e : Int) :
    ((magnitude (.finite negative m e)).1 : ℚ) / (magnitude (.finite negative m e)).2 =
      m * 2 ^ e := by
  rw [magnitude]
  split
  · rename_i hneg
    have hpow := natPow_natAbs_of_neg 2 hneg
    simp only [Nat.pow_eq, hpow, Nat.cast_ofNat, div_inv_eq_mul]
  · rename_i hnonneg
    have hpow := natPow_natAbs_of_nonneg 2 (Int.not_lt.mp hnonneg)
    simp only [Nat.pow_eq, Nat.cast_mul, hpow, Nat.cast_ofNat, Nat.cast_one, div_one]

theorem magnitude_den_pos (x : Binary64) : 0 < x.magnitude.2 := by
  rw [magnitude.eq_def]
  split
  · split
    · exact Nat.pow_pos (by decide)
    · exact Nat.one_pos
  · exact Nat.one_pos

theorem ofRatio_magnitude (h : IsNormal (.finite negative m e)) :
    ofRatio negative (magnitude (.finite negative m e)).1 (magnitude (.finite negative m e)).2 =
      .finite negative m e := by
  obtain ⟨hlt, hleast, hgreatest, hform⟩ := h
  have hvalue := magnitude_value negative m e
  have hden := magnitude_den_pos (.finite negative m e)
  generalize magnitude (.finite negative m e) = fraction at hvalue hden ⊢
  obtain ⟨num, den⟩ := fraction
  have hpos : (0 : ℚ) < den := Nat.cast_pos.mpr hden
  rcases Nat.eq_zero_or_pos m with rfl | hm
  · have hzero : num = 0 := by
      rw [Nat.cast_zero, zero_mul, div_eq_zero_iff] at hvalue
      exact Nat.cast_eq_zero.mp (hvalue.resolve_right hpos.ne')
    obtain rfl : e = -1074 := by
      rcases hform with hform | hform
      · exact absurd hform (by decide)
      · exact hform
    simp [ofRatio, hzero]
  · have hnum : 0 < num := by
      refine Nat.pos_of_ne_zero fun hzero => ?_
      have hprod : (0 : ℚ) < m * 2 ^ e := by positivity
      rw [← hvalue, hzero, Nat.cast_zero, zero_div] at hprod
      exact lt_irrefl _ hprod
    have hexponent : exponentFor num den = e := by
      refine (isExponentOf_exponentFor hnum hden).unique ⟨hleast, ?_, ?_⟩
      · rw [hvalue, ← two_leastMantissa_mul]
        gcongr
      · refine hform.symm.imp_right fun hmantissa => ?_
        rw [hvalue, ← leastMantissa_mul]
        gcongr
    have hscaled : (scaled num den e).1 = m * (scaled num den e).2 := by
      have hd : ((scaled num den e).2 : ℚ) ≠ 0 := Nat.cast_ne_zero.mpr (scaled_den_pos hden e).ne'
      have hratio := scaled_value num den e
      rw [hvalue, mul_assoc, ← zpow_add₀ two_ne_zero, add_neg_cancel, zpow_zero, mul_one,
        div_eq_iff hd] at hratio
      exact_mod_cast hratio
    have hround : roundRatio (scaled num den e).1 (scaled num den e).2 = m := by
      rw [hscaled]
      exact roundRatio_of_mul m (scaled_den_pos hden e)
    rw [ofRatio, if_neg hnum.ne', hexponent]
    simp only [hround, hlt.ne, if_false]
    rw [if_neg (by omega)]

end UnsafeAudit.Binary64
