import UnsafeAudit.Proofs.Decimal.Rounding

/-!
# Shortest digits

The digits that a number is shown with read as the number itself
(`ofDecimal_digits`). Digits that a search has found have been tried. The zeros
at their end are dropped after that, which leaves their value alone, and where
nothing is found the number shows all its digits.
-/

namespace UnsafeAudit.Binary64

variable {num den n d c c' m fuel : Nat} {e e' exponent : Int} {negative : Bool} {x : Binary64}

-- ---------------------------------------------------------------------------
-- Decimal fractions
-- ---------------------------------------------------------------------------

/-- A lower bound of the places before the point in a natural. -/
def places (c : Nat) : Int := (Nat.log2 c : Int) * 3 / 10

theorem pow_places_le (h : c ≠ 0) : (10 : ℚ) ^ places c ≤ c := by
  obtain ⟨k, hk⟩ : ∃ k : Nat, places c = k := ⟨Nat.log2 c * 3 / 10, by rw [places]; omega⟩
  have hbits : 10 * k ≤ 3 * c.log2 := by
    rw [places] at hk
    omega
  have hpow : 10 ^ k ≤ 2 ^ c.log2 := by
    refine (Nat.pow_le_pow_iff_left (n := 10) (by decide)).mp ?_
    calc (10 ^ k) ^ 10 = 10 ^ (10 * k) := by rw [← Nat.pow_mul, Nat.mul_comm]
      _ ≤ 10 ^ (3 * c.log2) := Nat.pow_le_pow_right (by decide) hbits
      _ = 1000 ^ c.log2 := by rw [Nat.pow_mul]
      _ ≤ 1024 ^ c.log2 := Nat.pow_le_pow_left (by decide) _
      _ = (2 ^ c.log2) ^ 10 := by rw [← Nat.pow_mul, Nat.mul_comm, Nat.pow_mul]
  rw [hk, zpow_natCast]
  exact_mod_cast hpow.trans (Nat.log2_self_le h)

/-- A decimal fraction is rounded as every other fraction of its value is, unless it has so many
places that its size alone would settle it. -/
theorem ofDecimal_eq_ofRatio (hc : c ≠ 0) (hlow : -400 ≤ places c + e)
    (hhigh : (c : ℚ) * 10 ^ e < 2 ^ (1024 : Int)) (hd : 0 < d)
    (hvalue : (n : ℚ) / d = c * 10 ^ e) (negative : Bool) :
    ofDecimal negative c e = ofRatio negative n d := by
  have hpos : (d : ℚ) ≠ 0 := Nat.cast_ne_zero.mpr hd.ne'
  have hplaces : places c + e < 400 := by
    have hpow : (10 : ℚ) ^ (places c + e) < 10 ^ (400 : Int) := by
      calc (10 : ℚ) ^ (places c + e) = 10 ^ places c * 10 ^ e := zpow_add₀ (by norm_num) _ _
        _ ≤ c * 10 ^ e := by
          gcongr
          exact pow_places_le hc
        _ < 2 ^ (1024 : Int) := hhigh
        _ ≤ 10 ^ (400 : Int) := by exact_mod_cast (by decide +kernel : 2 ^ 1024 ≤ 10 ^ 400)
    exact (zpow_lt_zpow_iff_right₀ (by norm_num)).mp hpow
  have hhighcut : ¬ (c.log2 : Int) * 3 / 10 + e > 400 := not_lt.mpr hplaces.le
  have hlowcut : ¬ (c.log2 : Int) * 3 / 10 + e < -400 := not_lt.mpr hlow
  rw [ofDecimal]
  simp only [hc, hhighcut, hlowcut, if_false]
  rw [div_eq_iff hpos] at hvalue
  split
  · rename_i hneg
    refine ofRatio_congr (Nat.pow_pos (by decide)) hd ?_ negative
    have hpow := natPow_natAbs_of_neg 10 hneg
    have hprod : ((c * d : Nat) : ℚ) = ((n * Nat.pow 10 e.natAbs : Nat) : ℚ) := by
      rw [Nat.pow_eq, Nat.cast_mul, Nat.cast_mul, hpow, hvalue, Nat.cast_ofNat]
      field_simp
    exact_mod_cast hprod
  · rename_i hnonneg
    refine ofRatio_congr Nat.one_pos hd ?_ negative
    have hpow := natPow_natAbs_of_nonneg 10 (Int.not_lt.mp hnonneg)
    have hprod : ((c * Nat.pow 10 e.natAbs * d : Nat) : ℚ) = ((n * 1 : Nat) : ℚ) := by
      rw [Nat.pow_eq, Nat.cast_mul, Nat.cast_mul, hpow, Nat.mul_one, hvalue, Nat.cast_ofNat]
    exact_mod_cast hprod

/-- What is read as a finite number other than zero is small. -/
theorem lt_of_ofDecimal (h : ofDecimal negative c e = .finite negative m exponent) (hm : m ≠ 0) :
    (c : ℚ) * 10 ^ e < 2 ^ (1024 : Int) := by
  rw [ofDecimal] at h
  split at h
  · cases h
    exact absurd rfl hm
  split at h
  · cases h
  split at h
  · cases h
    exact absurd rfl hm
  split at h
  · rename_i hneg
    have hpow := natPow_natAbs_of_neg 10 hneg
    have hlt := lt_of_ofRatio (Nat.pow_pos (by decide)) h
    rw [hpow, Nat.cast_ofNat, div_inv_eq_mul] at hlt
    exact hlt
  · rename_i hnonneg
    have hpow := natPow_natAbs_of_nonneg 10 (Int.not_lt.mp hnonneg)
    have hlt := lt_of_ofRatio Nat.one_pos h
    rw [Nat.pow_eq, Nat.cast_mul, hpow, Nat.cast_ofNat, Nat.cast_one, div_one] at hlt
    exact hlt

theorem places_nonneg (c : Nat) : 0 ≤ places c := by
  rw [places]
  omega

theorem exists_ratio (c : Nat) (e : Int) :
    ∃ n d : Nat, 0 < d ∧ (n : ℚ) / d = c * 10 ^ e := by
  rcases Int.lt_or_le e 0 with hneg | hnonneg
  · have hpow := natPow_natAbs_of_neg 10 hneg
    refine ⟨c, 10 ^ e.natAbs, Nat.pow_pos (by decide), ?_⟩
    rw [hpow, Nat.cast_ofNat, div_inv_eq_mul]
  · have hpow := natPow_natAbs_of_nonneg 10 hnonneg
    refine ⟨c * 10 ^ e.natAbs, 1, Nat.one_pos, ?_⟩
    rw [Nat.cast_mul, hpow, Nat.cast_ofNat, Nat.cast_one, div_one]

theorem ofDecimal_congr (hc : c ≠ 0) (hc' : c' ≠ 0) (he : -400 ≤ e) (he' : -400 ≤ e')
    (hvalue : (c : ℚ) * 10 ^ e = c' * 10 ^ e')
    (hhigh : (c : ℚ) * 10 ^ e < 2 ^ (1024 : Int)) (negative : Bool) :
    ofDecimal negative c e = ofDecimal negative c' e' := by
  have hplaces := places_nonneg c
  have hplaces' := places_nonneg c'
  obtain ⟨n, d, hd, hratio⟩ := exists_ratio c e
  rw [ofDecimal_eq_ofRatio hc (by omega) hhigh hd hratio,
    ofDecimal_eq_ofRatio hc' (by omega) (hvalue ▸ hhigh) hd (hratio.trans hvalue)]

-- ---------------------------------------------------------------------------
-- Zeros at the end
-- ---------------------------------------------------------------------------

theorem ofDecimal_dropZeros (h : ofDecimal negative c e = .finite negative m exponent)
    (hm : m ≠ 0) (he : -400 ≤ e) (fuel : Nat) :
    ofDecimal negative (dropZeros fuel c e).1 (dropZeros fuel c e).2 =
      .finite negative m exponent := by
  induction fuel generalizing c e with
  | zero => exact h
  | succ fuel ih =>
    rw [dropZeros]
    split
    · rename_i hzero
      obtain ⟨hc, hmod⟩ : c ≠ 0 ∧ c % 10 = 0 := by simpa using hzero
      have hwhole : c = 10 * (c / 10) := by omega
      have hvalue : (c : ℚ) * 10 ^ e = (c / 10 : Nat) * 10 ^ (e + 1) := by
        rw [zpow_add_one₀ (by norm_num)]
        nth_rewrite 1 [hwhole]
        rw [Nat.cast_mul, Nat.cast_ofNat]
        ring
      refine ih ?_ (by omega)
      rw [← h]
      exact (ofDecimal_congr hc (by omega) he (by omega) hvalue (lt_of_ofDecimal h hm) _).symm
    · exact h

-- ---------------------------------------------------------------------------
-- Digits
-- ---------------------------------------------------------------------------

theorem le_decimalPointFrom (num den fuel : Nat) (k : Int) : k ≤ decimalPointFrom num den fuel k := by
  induction fuel generalizing k with
  | zero => exact Int.le_refl k
  | succ fuel ih =>
    have hnext : k ≤ decimalPointFrom num den fuel (k + 1) := Int.le_trans (by omega) (ih (k + 1))
    rw [decimalPointFrom]
    split <;> split
    · exact Int.le_refl k
    · exact hnext
    · exact Int.le_refl k
    · exact hnext

/-- A search for digits does not begin far behind the point. -/
theorem le_decimalPoint (h : IsNormal (.finite negative m e)) :
    -326 ≤ decimalPoint (magnitude (.finite negative m e)).1
      (magnitude (.finite negative m e)).2 := by
  have hden : (magnitude (.finite negative m e)).2.log2 ≤ 1074 := by
    have hleast := h.2.1
    rw [magnitude]
    split
    · rw [Nat.pow_eq, Nat.log2_two_pow]
      omega
    · exact Nat.zero_le _
  refine Int.le_trans ?_ (le_decimalPointFrom _ _ 12 _)
  omega

/-- Four digits to the base five have more than nine bits. -/
theorem pow_two_le_pow_five (hm : 0 < m) (k : Nat) : 2 ^ (9 * (k / 4)) ≤ m * Nat.pow 5 k := by
  calc 2 ^ (9 * (k / 4)) = 512 ^ (k / 4) := by rw [Nat.pow_mul]
    _ ≤ 625 ^ (k / 4) := Nat.pow_le_pow_left (by decide) _
    _ = 5 ^ (4 * (k / 4)) := by rw [Nat.pow_mul]
    _ ≤ 5 ^ k := Nat.pow_le_pow_right (by decide) (Nat.mul_div_le k 4)
    _ ≤ m * 5 ^ k := Nat.le_mul_of_pos_left _ hm

theorem ofDecimal_of_value (h : IsNormal (.finite negative m e)) (hc : c ≠ 0)
    (hlow : -400 ≤ places c + e') (hvalue : (c : ℚ) * 10 ^ e' = m * 2 ^ e) :
    ofDecimal negative c e' = .finite negative m e := by
  have hden := magnitude_den_pos (.finite negative m e)
  have hround := ofRatio_magnitude h
  have hratio := magnitude_value negative m e
  have hhigh := lt_of_ofRatio hden hround
  rw [hratio, ← hvalue] at hhigh
  rw [← hround]
  exact ofDecimal_eq_ofRatio hc hlow hhigh hden (hratio.trans hvalue.symm) negative

theorem ofDecimal_allDigits (h : IsNormal (.finite negative m e)) (hm : m ≠ 0) :
    (e < 0 → ofDecimal negative (m * Nat.pow 5 e.natAbs) e = .finite negative m e) ∧
    (0 ≤ e → ofDecimal negative (m * Nat.pow 2 e.natAbs) 0 = .finite negative m e) := by
  refine ⟨fun hneg => ?_, fun hnonneg => ?_⟩
  · have hc : m * Nat.pow 5 e.natAbs ≠ 0 := Nat.mul_ne_zero hm (Nat.pow_pos (by decide)).ne'
    have hplaces : -400 ≤ places (m * Nat.pow 5 e.natAbs) + e := by
      have hlog : 9 * (e.natAbs / 4) ≤ (m * Nat.pow 5 e.natAbs).log2 :=
        (Nat.le_log2 hc).mpr (pow_two_le_pow_five (Nat.pos_of_ne_zero hm) e.natAbs)
      have hleast := h.2.1
      rw [places]
      omega
    refine ofDecimal_of_value h hc hplaces ?_
    have hpow := natPow_natAbs_of_neg 5 hneg
    have hten : (10 : ℚ) ^ e = 5 ^ e * 2 ^ e := by
      rw [← mul_zpow]
      norm_num
    rw [Nat.pow_eq, Nat.cast_mul, hpow, hten, Nat.cast_ofNat]
    field_simp
  · have hc : m * Nat.pow 2 e.natAbs ≠ 0 := Nat.mul_ne_zero hm (Nat.pow_pos (by decide)).ne'
    have hplaces : -400 ≤ places (m * Nat.pow 2 e.natAbs) + 0 :=
      Int.le_trans (by decide) (Int.add_nonneg (places_nonneg _) (Int.le_refl 0))
    refine ofDecimal_of_value h hc hplaces ?_
    have hpow := natPow_natAbs_of_nonneg 2 hnonneg
    rw [Nat.pow_eq, Nat.cast_mul, hpow, zpow_zero, mul_one, Nat.cast_ofNat]

/-- The digits of a number are those that a search has tried, less the zeros at their end, or all of
its digits. -/
theorem digits_cases (negative : Bool) (m : Nat) (e : Int) :
    (magnitude (.finite negative m e)).1 = 0 ∧ digits (.finite negative m e) = (0, 0) ∨
    (∃ c place, decimalPoint (magnitude (.finite negative m e)).1
          (magnitude (.finite negative m e)).2 - 17 ≤ place ∧
        ofDecimal negative c place = .finite negative m e ∧
        digits (.finite negative m e) = dropZeros 20 c place) ∨
    digits (.finite negative m e) =
      if e < 0 then (m * Nat.pow 5 e.natAbs, e) else (m * Nat.pow 2 e.natAbs, 0) := by
  unfold digits
  generalize magnitude (.finite negative m e) = fraction
  obtain ⟨num, den⟩ := fraction
  dsimp only
  split
  · rename_i hzero
    exact .inl ⟨hzero, rfl⟩
  · refine .inr ?_
    split
    · rename_i c place hhit
      obtain ⟨k, hk, hfound⟩ := List.exists_of_findSome?_eq_some hhit
      obtain ⟨c', hc', heq⟩ := Option.map_eq_some_iff.mp hfound
      cases heq
      have htried := List.find?_some hc'
      refine .inl ⟨_, _, ?_, of_decide_eq_true htried, rfl⟩
      have := List.mem_range.mp hk
      omega
    · exact .inr rfl

theorem ofDecimal_digits (h : IsNormal x) :
    ofDecimal x.isNegative x.digits.1 x.digits.2 = x := by
  cases x with
  | infinite negative => exact h.elim
  | nan => exact h.elim
  | finite negative m e =>
    rcases Nat.eq_zero_or_pos m with rfl | hm
    · obtain rfl : e = -1074 := h.2.2.2.resolve_left (by decide)
      rfl
    · rcases digits_cases negative m e with ⟨hzero, -⟩ | ⟨c, place, hplace, htried, hdigits⟩ | hall
      · have hvalue := magnitude_value negative m e
        have hpos : (0 : ℚ) < m * 2 ^ e := by positivity
        rw [hzero, Nat.cast_zero, zero_div] at hvalue
        exact absurd hvalue hpos.ne
      · have hpoint := le_decimalPoint h
        rw [hdigits]
        exact ofDecimal_dropZeros htried hm.ne' (by omega) 20
      · obtain ⟨hneg, hnonneg⟩ := ofDecimal_allDigits h hm.ne'
        rw [hall]
        split
        · rename_i he
          exact hneg he
        · rename_i he
          exact hnonneg (Int.not_lt.mp he)

end UnsafeAudit.Binary64
