import PoseLang.Proofs.Decimal.Interval

/-!
# Rounding to the nearest double

Rounding a quotient goes by its binary exponent: the quotient is written in units of the last place that a
double of this size has, and rounded to the nearest number of them, a half to the even one. Every rational
in the interval of a double rounds to this double (`nearestBits_eq`), also just below a power of two, where
the units are half as large and the mantissa carries into the next exponent.
-/

namespace PoseLang.Decimal

/-! ## Rounding to a whole number -/

/-- The rationals that round to the natural number `k`. -/
def Nearby (k : Nat) (v : ℚ) : Prop :=
  if k % 2 = 0 then k - 1 / 2 ≤ v ∧ v ≤ k + 1 / 2 else k - 1 / 2 < v ∧ v < k + 1 / 2

theorem Nearby.bounds {k : Nat} {v : ℚ} (h : Nearby k v) : k - 1 / 2 ≤ v ∧ v ≤ k + 1 / 2 := by
  unfold Nearby at h
  split at h
  · exact h
  · exact ⟨h.1.le, h.2.le⟩

theorem Nearby.bounds_of_odd {k : Nat} {v : ℚ} (h : Nearby k v) (hk : k % 2 = 1) :
    k - 1 / 2 < v ∧ v < k + 1 / 2 := by
  rwa [Nearby, if_neg (by omega)] at h

theorem roundHalfEven_eq {num den k : Nat} (hden : 0 < den) (h : Nearby k (num / den)) :
    roundHalfEven num den = k := by
  have hdenQ : (0 : ℚ) < den := by exact_mod_cast hden
  have hquotient : (num / den : ℚ) = (num / den : Nat) + (num % den : Nat) / den := by
    rw [add_div' _ _ _ hdenQ.ne', mul_comm]
    exact_mod_cast congrArg (· / (den : ℚ)) (congrArg Nat.cast (Nat.div_add_mod num den).symm)
  have hmod : ((num % den : Nat) : ℚ) / den < 1 := by
    rw [div_lt_one hdenQ]
    exact_mod_cast Nat.mod_lt num hden
  have hmod' : (0 : ℚ) ≤ (num % den : Nat) / den := by positivity
  rw [roundHalfEven]
  rw [hquotient] at h
  obtain ⟨hlow, hhigh⟩ := h.bounds
  have hodd := h.bounds_of_odd
  generalize num / den = n at *
  generalize num % den = r at *
  split
  next hr =>
    have hr : (2 * (r / den) : ℚ) < 1 := by
      rw [← mul_div_assoc, div_lt_one hdenQ]
      exact_mod_cast hr
    have hn : (n : ℚ) < (k + 1 : Nat) := by push_cast; linarith
    have hk : (k : ℚ) < (n + 1 : Nat) := by push_cast; linarith
    rw [Nat.cast_lt] at hn hk
    omega
  next hr =>
    have hr : (1 : ℚ) ≤ 2 * (r / den) := by
      rw [← mul_div_assoc, one_le_div hdenQ]
      exact_mod_cast Nat.le_of_not_lt hr
    split
    next hr' =>
      have hr' : (1 : ℚ) < 2 * (r / den) := by
        rw [← mul_div_assoc, one_lt_div hdenQ]
        exact_mod_cast hr'
      have hn : (n : ℚ) < k := by linarith
      have hk : (k : ℚ) < (n + 2 : Nat) := by push_cast; linarith
      rw [Nat.cast_lt] at hn hk
      omega
    next hr' =>
      -- The quotient is in the middle of `n` and `n + 1`, and `k` is the even one of them.
      have hr' : (2 * (r / den) : ℚ) ≤ 1 := by
        rw [← mul_div_assoc, div_le_one hdenQ]
        exact_mod_cast Nat.le_of_not_lt hr'
      have hn : (n : ℚ) ≤ k := by linarith
      have hk : (k : ℚ) ≤ (n + 1 : Nat) := by push_cast; linarith
      have hodd (hk : k % 2 = 1) : (n : ℚ) < k ∧ (k : ℚ) < (n + 1 : Nat) := by
        have hodd := hodd hk
        push_cast
        exact ⟨by linarith, by linarith⟩
      rw [Nat.cast_le] at hn hk
      rw [Nat.cast_lt, Nat.cast_lt] at hodd
      split <;> omega

/-- A quotient in units of `2 ^ e`, as a quotient of naturals. -/
theorem div_units (num den : Nat) (e : Int) :
    ((num * pow2 (-e).toNat : Nat) / (den * pow2 e.toNat : Nat) : ℚ) = num / den / 2 ^ e := by
  have hpow : (2 : ℚ) ^ (-e).toNat ≠ 0 := by positivity
  rw [Nat.cast_mul, Nat.cast_mul, cast_pow2, cast_pow2, ← zpow_mul_pow_toNat (by norm_num) e, ← mul_assoc,
    mul_div_mul_right _ _ hpow, div_div]

/-! ## The binary exponent -/

/-- The largest exponent of a power of two that is not above a quotient. -/
def binaryTop (num den : Nat) : Int :=
  let high : Int := (num.log2 : Int) - den.log2
  if atLeastPow2 num den high then high else high - 1

theorem atLeastPow2_iff {num den : Nat} (hden : 0 < den) {e : Int} :
    atLeastPow2 num den e = true ↔ (2 : ℚ) ^ e ≤ num / den := by
  have hden : (0 : ℚ) < den := by exact_mod_cast hden
  rw [atLeastPow2, decide_eq_true_eq, le_div_iff₀ hden, mul_comm (2 ^ e : ℚ),
    ← le_mul_pow_iff (by norm_num), ← cast_pow2, ← cast_pow2]
  exact_mod_cast Iff.rfl

theorem pow_binaryTop_le {num den : Nat} (hnum : 0 < num) (hden : 0 < den) :
    (2 : ℚ) ^ binaryTop num den ≤ num / den := by
  have hdenQ : (0 : ℚ) < den := by exact_mod_cast hden
  rw [binaryTop]
  split
  next h => exact (atLeastPow2_iff hden).mp h
  next h =>
    have hlow : (2 : ℚ) ^ num.log2 ≤ num := by exact_mod_cast Nat.log2_self_le hnum.ne'
    have hhigh : (den : ℚ) ≤ 2 ^ (den.log2 + 1) := by exact_mod_cast Nat.lt_log2_self.le
    rw [le_div_iff₀ hdenQ]
    calc (2 : ℚ) ^ ((num.log2 : Int) - den.log2 - 1) * den
      _ ≤ 2 ^ ((num.log2 : Int) - den.log2 - 1) * 2 ^ (den.log2 + 1) := by gcongr
      _ = 2 ^ num.log2 := by
        rw [← zpow_natCast, ← zpow_natCast, ← zpow_add₀ (by norm_num)]
        congr 1
        push_cast
        ring
      _ ≤ num := hlow

theorem lt_pow_binaryTop {num den : Nat} (hden : 0 < den) :
    (num / den : ℚ) < 2 ^ (binaryTop num den + 1) := by
  have hdenQ : (0 : ℚ) < den := by exact_mod_cast hden
  rw [binaryTop]
  split
  next h =>
    have hlow : (2 : ℚ) ^ den.log2 ≤ den := by exact_mod_cast Nat.log2_self_le hden.ne'
    have hhigh : (num : ℚ) < 2 ^ (num.log2 + 1) := by exact_mod_cast Nat.lt_log2_self
    rw [div_lt_iff₀ hdenQ]
    calc (num : ℚ)
      _ < 2 ^ (num.log2 + 1) := hhigh
      _ = 2 ^ ((num.log2 : Int) - den.log2 + 1) * 2 ^ den.log2 := by
        rw [← zpow_natCast, ← zpow_natCast, ← zpow_add₀ (by norm_num)]
        congr 1
        push_cast
        ring
      _ ≤ 2 ^ ((num.log2 : Int) - den.log2 + 1) * den := by gcongr
  next h =>
    rw [sub_add_cancel]
    exact lt_of_not_ge fun hge => h ((atLeastPow2_iff hden).mpr hge)

/-- The exponent is determined by the powers of two around a quotient. -/
theorem binaryTop_eq {num den : Nat} (hnum : 0 < num) (hden : 0 < den) {t : Int}
    (hlow : (2 : ℚ) ^ t ≤ num / den) (hhigh : (num / den : ℚ) < 2 ^ (t + 1)) : binaryTop num den = t := by
  have hlt := (zpow_lt_zpow_iff_right₀ (by norm_num)).mp (hlow.trans_lt (lt_pow_binaryTop hden))
  have hlt' := (zpow_lt_zpow_iff_right₀ (by norm_num)).mp ((pow_binaryTop_le hnum hden).trans_lt hhigh)
  omega

/-- Rounding in the units that the exponent gives. -/
theorem nearestBits_of_nearby {num den k : Nat} {e : Int} (hden : 0 < den)
    (he : max (binaryTop num den - 52) (-1074) = e) (h : Nearby k (num / den / 2 ^ e))
    (hunder : (e + 1074).toNat * 2 ^ 52 + k ≤ infinityBits) :
    nearestBits num den = (e + 1074).toNat * 2 ^ 52 + k := by
  have hbits : nearestBits num den = min ((e + 1074).toNat * pow2 52 +
      roundHalfEven (num * pow2 (-e).toNat) (den * pow2 e.toNat)) infinityBits := by
    rw [← he]
    rfl
  have hpos : 0 < den * pow2 e.toNat := Nat.mul_pos hden (Nat.pow_pos (by decide))
  rw [← div_units] at h
  rw [hbits, roundHalfEven_eq hpos h]
  exact Nat.min_eq_left hunder

/-! ## Rounding inside an interval -/

section

variable {m : Nat} {q : Int} {v : ℚ}

theorem Within.bounds (h : Within m q v) : lowerEnd m q ≤ v ∧ v ≤ upperEnd m q := by
  unfold Within at h
  split at h
  · exact h
  · exact ⟨h.1.le, h.2.le⟩

theorem lowerEnd_ge (m : Nat) (q : Int) : ((m - 1 / 2) * 2 ^ q : ℚ) ≤ lowerEnd m q := by
  have hplace : (0 : ℚ) < 2 ^ (q - 2) := by positivity
  have hbelow : (quartersBelow m q : ℚ) ≤ 2 := by
    unfold quartersBelow
    split <;> norm_num
  rw [lowerEnd, zpow_eq_four_mul q]
  nlinarith

theorem upperEnd_eq (m : Nat) (q : Int) : upperEnd m q = (m + 1 / 2) * 2 ^ q := by
  rw [upperEnd, zpow_eq_four_mul q]
  ring

theorem Within.pos (h : Within m q v) (hm : 0 < m) : 0 < v := by
  have hm : (1 : ℚ) ≤ m := by exact_mod_cast hm
  have hplace : (0 : ℚ) < 2 ^ q := by positivity
  have hlow := (lowerEnd_ge m q).trans h.bounds.1
  nlinarith

/-- In units of the last place, the interval rounds to the mantissa. -/
theorem Within.nearby (h : Within m q v) : Nearby m (v / 2 ^ q) := by
  have hplace : (0 : ℚ) < 2 ^ q := by positivity
  have hlow := lowerEnd_ge m q
  have hhigh := upperEnd_eq m q
  unfold Within at h
  unfold Nearby
  split at h
  next heven =>
    rw [if_pos heven, le_div_iff₀ hplace, div_le_iff₀ hplace]
    exact ⟨hlow.trans h.1, hhigh ▸ h.2⟩
  next hodd =>
    rw [if_neg hodd, lt_div_iff₀ hplace, div_lt_iff₀ hplace]
    exact ⟨hlow.trans_lt h.1, hhigh ▸ h.2⟩

theorem Within.lt_pow (h : Within m q v) (hm : m < 2 ^ 53) : v < 2 ^ (q + 53) := by
  have hm : (m + 1 : ℚ) ≤ 2 ^ 53 := by exact_mod_cast hm
  have hplace : (0 : ℚ) < 2 ^ q := by positivity
  have hhigh := h.bounds.2
  rw [upperEnd_eq] at hhigh
  rw [zpow_add₀ (by norm_num)]
  norm_num at hm ⊢
  nlinarith

/-- Only a power of two has smaller numbers with a lower exponent in its interval, and they are half a unit
of that exponent away at most. -/
theorem Within.below_pow (h : Within m q v) (hq : -1074 < q) (hm : 2 ^ 52 ≤ m) (hv : v < 2 ^ (q + 52)) :
    m = 2 ^ 52 ∧ ((2 ^ 53 - 1 / 2) * 2 ^ (q - 1) : ℚ) ≤ v := by
  have hplace : (0 : ℚ) < 2 ^ (q - 2) := by positivity
  have hlow := h.bounds.1
  have hpower : m = 2 ^ 52 := by
    refine Nat.le_antisymm (Nat.le_of_not_lt fun hlt => ?_) hm
    have hlt : (2 ^ 52 + 1 : ℚ) ≤ m := by exact_mod_cast hlt
    have hlow := (lowerEnd_ge m q).trans hlow
    rw [zpow_add₀ (by norm_num), zpow_eq_four_mul q] at hv
    rw [zpow_eq_four_mul q] at hlow
    norm_num at hv
    nlinarith
  refine ⟨hpower, ?_⟩
  refine le_trans (le_of_eq ?_) hlow
  subst hpower
  have hquarter : quartersBelow (2 ^ 52) q = 1 := if_pos ⟨rfl, hq⟩
  have hhalf : (2 : ℚ) ^ (q - 1) = 2 * 2 ^ (q - 2) := by
    rw [← zpow_one_add₀ (by norm_num)]
    congr 1
    ring
  rw [lowerEnd, hquarter, hhalf]
  push_cast
  ring

end

/-- Every quotient in the interval of a double rounds to this double. -/
theorem nearestBits_eq {m : Nat} {q : Int} (hc : Canonical m q) {num den : Nat} (hden : 0 < den)
    (h : Within m q (num / den)) : nearestBits num den = (q + 1074).toNat * 2 ^ 52 + m := by
  have hnum : 0 < num := by
    have hpos := h.pos hc.pos
    rw [div_pos_iff_of_pos_right (by exact_mod_cast hden)] at hpos
    exact_mod_cast hpos
  have hunder : (q + 1074).toNat * 2 ^ 52 + m ≤ infinityBits := by
    have hq := hc.greatest
    have hm := hc.lt
    rw [infinityBits]
    omega
  have hlt := h.lt_pow hc.lt
  have hleast := hc.least
  rcases le_or_gt q (-1074) with hq | hq
  · -- At the least exponent the units do not get smaller.
    have htop := (zpow_lt_zpow_iff_right₀ (by norm_num)).mp ((pow_binaryTop_le hnum hden).trans_lt hlt)
    exact nearestBits_of_nearby hden (by omega) h.nearby hunder
  · rcases le_or_gt ((2 : ℚ) ^ (q + 52)) (num / den) with hv | hv
    · have htop := binaryTop_eq hnum hden hv (by rwa [add_assoc])
      exact nearestBits_of_nearby hden (by omega) h.nearby hunder
    · -- Just below a power of two, the mantissa of the next lower exponent rounds up and carries.
      obtain ⟨rfl, hlow⟩ := h.below_pow hq (hc.normal hq) hv
      have hplace : (0 : ℚ) < 2 ^ (q - 1) := by positivity
      have htop : binaryTop num den = q + 51 := by
        refine binaryTop_eq hnum hden ?_ (by rwa [add_assoc])
        have hpow : (2 : ℚ) ^ (q + 51) = 2 ^ (q - 1) * 2 ^ 52 := by
          rw [← zpow_natCast, ← zpow_add₀ (by norm_num)]
          congr 1
          push_cast
          ring
        rw [hpow]
        linarith
      have hnear : Nearby (2 ^ 53) (num / den / 2 ^ (q - 1)) := by
        have hpow : (2 : ℚ) ^ (q + 52) = 2 ^ 53 * 2 ^ (q - 1) := by
          rw [← zpow_natCast, ← zpow_add₀ (by norm_num)]
          congr 1
          push_cast
          ring
        rw [Nearby, if_pos (by decide), le_div_iff₀ hplace, div_le_iff₀ hplace]
        push_cast
        exact ⟨hlow, by linarith⟩
      have hbits : (q - 1 + 1074).toNat * 2 ^ 52 + 2 ^ 53 = (q + 1074).toNat * 2 ^ 52 + 2 ^ 52 := by omega
      rw [← hbits] at hunder ⊢
      exact nearestBits_of_nearby hden (by omega) hnear hunder

/-! ## Decimals -/

theorem lt_pow_length_toDigits (n : Nat) : n < 10 ^ (Nat.toDigits 10 n).length :=
  (Nat.length_toDigits_le_iff (by decide) Nat.length_toDigits_pos).mp le_rfl

theorem pow_length_toDigits_le {n : Nat} (hn : 0 < n) : 10 ^ ((Nat.toDigits 10 n).length - 1) ≤ n := by
  rcases Nat.eq_zero_or_pos ((Nat.toDigits 10 n).length - 1) with hone | hmore
  · rw [hone]
    exact hn
  · refine Nat.le_of_not_lt fun hlt => ?_
    have hle := (Nat.length_toDigits_le_iff (by decide) hmore).mpr hlt
    omega

theorem mul_pow10_div (n : Nat) (e : Int) :
    ((n * pow10 e.toNat : Nat) / (pow10 (-e).toNat : Nat) : ℚ) = n * 10 ^ e := by
  rw [Nat.cast_mul, cast_pow10, cast_pow10]
  exact mul_pow_div_pow (by norm_num) e n

theorem Within.lt_pow10 {m : Nat} {q : Int} {v : ℚ} (h : Within m q v) (hc : Canonical m q) :
    v < 10 ^ (310 : Int) := by
  have hq : q + 53 ≤ (1024 : Nat) := by
    have hgreatest := hc.greatest
    omega
  calc v < 2 ^ (q + 53) := h.lt_pow hc.lt
    _ ≤ 2 ^ ((1024 : Nat) : Int) := zpow_le_zpow_right₀ (by norm_num) hq
    _ ≤ 10 ^ (310 : Int) := by
      rw [zpow_natCast]
      exact_mod_cast (by decide +kernel : 2 ^ 1024 ≤ 10 ^ 310)

theorem Within.pow10_lt {m : Nat} {q : Int} {v : ℚ} (h : Within m q v) (hc : Canonical m q) :
    10 ^ (-331 : Int) < v := by
  have hm : (1 : ℚ) ≤ m := by exact_mod_cast hc.pos
  have hpow : (2 : ℚ) * 2 ^ 1074 < 10 ^ 331 := by
    exact_mod_cast (by decide +kernel : 2 * 2 ^ 1074 < 10 ^ 331)
  have hleast : (2 : ℚ) ^ (-1074 : Int) ≤ 2 ^ q := zpow_le_zpow_right₀ (by norm_num) hc.least
  calc (10 : ℚ) ^ (-331 : Int) = (10 ^ 331)⁻¹ := by rw [zpow_neg]; rfl
    _ < (2 * 2 ^ 1074)⁻¹ := inv_strictAnti₀ (by positivity) hpow
    _ = (1 - 1 / 2) * 2 ^ (-1074 : Int) := by rw [mul_inv, zpow_neg]; norm_num
    _ ≤ (m - 1 / 2) * 2 ^ q := by gcongr; linarith
    _ ≤ v := (lowerEnd_ge m q).trans h.bounds.1

/-- Every decimal in the interval of a double is read as this double. -/
theorem nearest_eq {m : Nat} {q : Int} (hc : Canonical m q) (negative : Bool) {n : Nat} {e : Int}
    (h : Within m q (n * 10 ^ e)) :
    nearest negative n e = ofMagnitudeBits negative ((q + 1074).toNat * 2 ^ 52 + m) := by
  have hn : 0 < n := by
    refine Nat.pos_of_ne_zero fun hzero => (h.pos hc.pos).ne' ?_
    rw [hzero, Nat.cast_zero, zero_mul]
  have hpos := @Nat.length_toDigits_pos 10 n
  have hlarge : ¬ 310 < e + (Nat.toDigits 10 n).length := by
    intro htop
    have hle : (10 ^ ((Nat.toDigits 10 n).length - 1) : ℚ) ≤ n := by
      exact_mod_cast pow_length_toDigits_le hn
    refine (h.lt_pow10 hc).not_ge ?_
    calc (10 : ℚ) ^ (310 : Int) ≤ 10 ^ ((((Nat.toDigits 10 n).length - 1 : Nat) : Int) + e) :=
          zpow_le_zpow_right₀ (by norm_num) (by omega)
      _ = 10 ^ ((Nat.toDigits 10 n).length - 1) * 10 ^ e := by rw [zpow_add₀ (by norm_num), zpow_natCast]
      _ ≤ n * 10 ^ e := by gcongr
  have hsmall : ¬ e + (Nat.toDigits 10 n).length < -330 := by
    intro htop
    have hlt : (n : ℚ) ≤ 10 ^ (Nat.toDigits 10 n).length := by
      exact_mod_cast (lt_pow_length_toDigits n).le
    refine (h.pow10_lt hc).not_ge ?_
    calc (n * 10 ^ e : ℚ) ≤ 10 ^ (Nat.toDigits 10 n).length * 10 ^ e := by gcongr
      _ = 10 ^ (((Nat.toDigits 10 n).length : Int) + e) := by rw [zpow_add₀ (by norm_num), zpow_natCast]
      _ ≤ 10 ^ (-331 : Int) := zpow_le_zpow_right₀ (by norm_num) (by omega)
  have hden : 0 < pow10 (-e).toNat := Nat.pow_pos (by decide)
  rw [nearest, if_neg hn.ne', if_neg hlarge, if_neg hsmall, nearestBits_eq hc hden]
  rwa [mul_pow10_div]

end PoseLang.Decimal
