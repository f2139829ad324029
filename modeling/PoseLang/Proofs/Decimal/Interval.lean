import Mathlib
import PoseLang.Decimal.Shortest

/-!
# The decimals that round to a double

A double has many decimals that round to it: those in an interval around it, half a place to either side,
and half of that below a power of two (`Within`). The exact arithmetic on quotients of naturals that looks
for a short decimal is arithmetic on rationals, and what it finds lies in the interval. It always finds
something, since the interval is wider than the grid of seventeen digits (`shortest_within`).
-/

namespace PoseLang.Decimal

/-! ## Quotients of naturals as rationals -/

section

variable {b : ℚ} (hb : 0 < b) (k : Int) (x y : ℚ)

include hb

theorem zpow_mul_pow_toNat : b ^ k * b ^ (-k).toNat = b ^ k.toNat := by
  rw [← zpow_natCast, ← zpow_natCast, ← zpow_add₀ hb.ne']
  congr 1
  omega

theorem mul_pow_lt_iff : x * b ^ (-k).toNat < y * b ^ k.toNat ↔ x < y * b ^ k := by
  rw [← zpow_mul_pow_toNat hb k, ← mul_assoc]
  exact mul_lt_mul_iff_left₀ (pow_pos hb _)

theorem mul_pow_le_iff : x * b ^ (-k).toNat ≤ y * b ^ k.toNat ↔ x ≤ y * b ^ k := by
  rw [← zpow_mul_pow_toNat hb k, ← mul_assoc]
  exact mul_le_mul_iff_left₀ (pow_pos hb _)

theorem le_mul_pow_iff : y * b ^ k.toNat ≤ x * b ^ (-k).toNat ↔ y * b ^ k ≤ x := by
  rw [← zpow_mul_pow_toNat hb k, ← mul_assoc]
  exact mul_le_mul_iff_left₀ (pow_pos hb _)

theorem mul_pow_div_pow : x * b ^ k.toNat / b ^ (-k).toNat = x * b ^ k := by
  rw [← zpow_mul_pow_toNat hb k, ← mul_assoc]
  exact mul_div_cancel_right₀ _ (pow_pos hb _).ne'

end

theorem cast_pow2 (n : Nat) : (pow2 n : ℚ) = 2 ^ n := by
  simp [pow2]

theorem cast_pow10 (n : Nat) : (pow10 n : ℚ) = 10 ^ n := by
  simp [pow10]

theorem belowPow10_iff {a b : Nat} {p : Int} : belowPow10 a b p = true ↔ (a : ℚ) < b * 10 ^ p := by
  rw [belowPow10, decide_eq_true_eq, ← mul_pow_lt_iff (by norm_num), ← cast_pow10, ← cast_pow10]
  exact_mod_cast Iff.rfl

/-! ## The interval of a double -/

/-- The mantissa and the exponent that a positive double has: below the least exponent there are no
further places, and above it the mantissa has all its digits. -/
structure Canonical (m : Nat) (q : Int) : Prop where
  pos : 0 < m
  lt : m < 2 ^ 53
  least : -1074 ≤ q
  greatest : q ≤ 971
  normal : -1074 < q → 2 ^ 52 ≤ m

/-- How far an interval reaches below its double, in quarters of the last place. -/
def quartersBelow (m : Nat) (q : Int) : Nat :=
  if m = pow2 52 ∧ -1074 < q then 1 else 2

/-- The lower end of the interval of `m · 2 ^ q`. -/
def lowerEnd (m : Nat) (q : Int) : ℚ :=
  (4 * m - quartersBelow m q) * 2 ^ (q - 2)

/-- The upper end of the interval of `m · 2 ^ q`. -/
def upperEnd (m : Nat) (q : Int) : ℚ :=
  (4 * m + 2) * 2 ^ (q - 2)

/-- The rationals that round to `m · 2 ^ q`: half a place above it, and as much or half of it below. The
ends belong to them if the mantissa is even. -/
def Within (m : Nat) (q : Int) (v : ℚ) : Prop :=
  if m % 2 = 0 then lowerEnd m q ≤ v ∧ v ≤ upperEnd m q else lowerEnd m q < v ∧ v < upperEnd m q

/-! ### The interval in exact arithmetic -/

theorem Rounding.holds_iff {r : Rounding} (hden : 0 < r.denominator) {n : Nat} {e : Int} :
    r.holds n e = true ↔
      if r.closed = true then
        (r.low / r.denominator : ℚ) ≤ n * 10 ^ e ∧ n * 10 ^ e ≤ (r.high / r.denominator : ℚ)
      else (r.low / r.denominator : ℚ) < n * 10 ^ e ∧ n * 10 ^ e < (r.high / r.denominator : ℚ) := by
  have hden : (0 : ℚ) < r.denominator := by exact_mod_cast hden
  have hle (a : Nat) : a * pow10 (-e).toNat ≤ n * pow10 e.toNat * r.denominator ↔
      (a / r.denominator : ℚ) ≤ n * 10 ^ e := by
    rw [Nat.mul_right_comm, div_le_iff₀ hden, mul_right_comm (n : ℚ), ← mul_pow_le_iff (by norm_num),
      ← cast_pow10, ← cast_pow10]
    exact_mod_cast Iff.rfl
  have hge (a : Nat) : n * pow10 e.toNat * r.denominator ≤ a * pow10 (-e).toNat ↔
      n * 10 ^ e ≤ (a / r.denominator : ℚ) := by
    rw [Nat.mul_right_comm, le_div_iff₀ hden, mul_right_comm (n : ℚ), ← le_mul_pow_iff (by norm_num),
      ← cast_pow10, ← cast_pow10]
    exact_mod_cast Iff.rfl
  unfold holds
  split <;> simp only [Bool.and_eq_true, decide_eq_true_eq, hle, hge, ← not_le]

section

variable {m : Nat} {q : Int}

/-- Quarters of the last place, as a quotient of naturals. -/
theorem div_quarters (n : Nat) (q : Int) :
    ((n * pow2 (q - 2).toNat : Nat) / (pow2 (2 - q).toNat : Nat) : ℚ) = n * 2 ^ (q - 2) := by
  rw [Nat.cast_mul, cast_pow2, cast_pow2, ← neg_sub q 2]
  exact mul_pow_div_pow (by norm_num) (q - 2) n

theorem quartersBelow_le (hm : 0 < m) : quartersBelow m q ≤ 4 * m := by
  unfold quartersBelow
  split <;> omega

theorem Rounding.low_of (hm : 0 < m) :
    ((Rounding.of m q).low / (Rounding.of m q).denominator : ℚ) = lowerEnd m q := by
  refine (div_quarters (4 * m - quartersBelow m q) q).trans ?_
  rw [Nat.cast_sub (quartersBelow_le hm), lowerEnd]
  push_cast
  rfl

theorem Rounding.high_of :
    ((Rounding.of m q).high / (Rounding.of m q).denominator : ℚ) = upperEnd m q := by
  refine (div_quarters (4 * m + 2) q).trans ?_
  rw [upperEnd]
  push_cast
  rfl

theorem Rounding.value_of :
    ((Rounding.of m q).value / (Rounding.of m q).denominator : ℚ) = m * 2 ^ q := by
  refine (div_quarters (4 * m) q).trans ?_
  rw [zpow_sub₀ (by norm_num)]
  push_cast
  ring

theorem Rounding.denominator_of_pos : 0 < (Rounding.of m q).denominator :=
  Nat.pow_pos (by decide)

theorem within_iff_holds (hm : 0 < m) {n : Nat} {e : Int} :
    (Rounding.of m q).holds n e = true ↔ Within m q (n * 10 ^ e) := by
  rw [Rounding.holds_iff Rounding.denominator_of_pos, Rounding.low_of hm, Rounding.high_of, Within]
  have hclosed : (Rounding.of m q).closed = (m % 2 == 0) := rfl
  simp only [hclosed, beq_iff_eq]

/-! ## Neighbours on a decimal grid -/

theorem zpow_eq_four_mul (q : Int) : (2 : ℚ) ^ q = 4 * 2 ^ (q - 2) := by
  rw [zpow_sub₀ (by norm_num)]
  ring

theorem lowerEnd_lt (m : Nat) (q : Int) : lowerEnd m q < m * 2 ^ q := by
  have hplace : (0 : ℚ) < 2 ^ (q - 2) := by positivity
  have hbelow : (1 : ℚ) ≤ quartersBelow m q := by
    unfold quartersBelow
    split <;> norm_num
  rw [lowerEnd, zpow_eq_four_mul q]
  nlinarith

theorem lt_upperEnd (m : Nat) (q : Int) : (m * 2 ^ q : ℚ) < upperEnd m q := by
  have hplace : (0 : ℚ) < 2 ^ (q - 2) := by positivity
  rw [upperEnd, zpow_eq_four_mul q]
  linarith

theorem within_of_lt {v : ℚ} (hlower : lowerEnd m q < v) (hupper : v < upperEnd m q) : Within m q v := by
  unfold Within
  split
  · exact ⟨hlower.le, hupper.le⟩
  · exact ⟨hlower, hupper⟩

/-- What is found on a grid lies in the interval. -/
theorem within_of_onGrid? (hm : 0 < m) {tie : Tie} {n : Nat} {e : Int}
    (h : (Rounding.of m q).onGrid? tie e = some n) : Within m q (n * 10 ^ e) := by
  rw [← within_iff_holds hm]
  rw [Rounding.onGrid?] at h
  split at h
  next hlower hupper =>
    cases h
    split
    · exact hupper
    · exact hlower
  next hlower _ =>
    cases h
    exact hlower
  next _ hupper =>
    cases h
    exact hupper
  next => cases h

/-- The neighbour below the number on the grid of `10 ^ e`. -/
def Rounding.neighbour (r : Rounding) (e : Int) : Nat :=
  r.value * pow10 (-e).toNat / (r.denominator * pow10 e.toNat)

theorem Rounding.neighbour_le {r : Rounding} (hden : 0 < r.denominator) (e : Int) :
    r.neighbour e * 10 ^ e ≤ (r.value / r.denominator : ℚ) := by
  have hdenQ : (0 : ℚ) < r.denominator := by exact_mod_cast hden
  have hle : r.neighbour e * r.denominator * pow10 e.toNat ≤ r.value * pow10 (-e).toNat := by
    rw [Nat.mul_assoc]
    exact Nat.div_mul_le_self _ _
  rw [le_div_iff₀ hdenQ, mul_right_comm, ← le_mul_pow_iff (by norm_num), ← cast_pow10, ← cast_pow10]
  exact_mod_cast hle

theorem Rounding.lt_neighbour {r : Rounding} (hden : 0 < r.denominator) (e : Int) :
    (r.value / r.denominator : ℚ) < (r.neighbour e + 1 : Nat) * 10 ^ e := by
  have hdenQ : (0 : ℚ) < r.denominator := by exact_mod_cast hden
  have hscale : 0 < r.denominator * pow10 e.toNat := Nat.mul_pos hden (Nat.pow_pos (by decide))
  have hlt : r.value * pow10 (-e).toNat < (r.neighbour e + 1) * r.denominator * pow10 e.toNat := by
    rw [Nat.mul_assoc]
    exact Nat.lt_mul_of_div_lt (Nat.lt_succ_self _) hscale
  rw [div_lt_iff₀ hdenQ, mul_right_comm, ← mul_pow_lt_iff (by norm_num), ← cast_pow10, ← cast_pow10]
  exact_mod_cast hlt

/-- Where nothing is found on a grid, the interval lies between two neighbours. -/
theorem between_of_onGrid? (hm : 0 < m) {tie : Tie} {e : Int}
    (h : (Rounding.of m q).onGrid? tie e = none) :
    ∃ n : Nat, n * 10 ^ e ≤ lowerEnd m q ∧ upperEnd m q ≤ (n + 1 : Nat) * 10 ^ e := by
  have hle := Rounding.neighbour_le (@Rounding.denominator_of_pos m q) e
  have hlt := Rounding.lt_neighbour (@Rounding.denominator_of_pos m q) e
  rw [Rounding.value_of] at hle hlt
  rw [Rounding.onGrid?] at h
  split at h
  next => cases h
  next => cases h
  next => cases h
  next hlower hupper =>
    refine ⟨(Rounding.of m q).neighbour e, ?_, ?_⟩
    · refine le_of_not_gt fun hin => Bool.eq_false_iff.mp hlower ((within_iff_holds hm).mpr ?_)
      exact within_of_lt hin (hle.trans_lt (lt_upperEnd m q))
    · refine le_of_not_gt fun hin => Bool.eq_false_iff.mp hupper ((within_iff_holds hm).mpr ?_)
      exact within_of_lt ((lowerEnd_lt m q).trans hlt) hin

/-! ## Seventeen digits -/

/-- An interval is wider than the grid that has seventeen digits for its double. -/
theorem onGrid?_ne_none (h : Canonical m q) {tie : Tie} {top : Int}
    (htop : (10 : ℚ) ^ (top - 1) ≤ m * 2 ^ q) : (Rounding.of m q).onGrid? tie (top - 17) ≠ none := by
  intro hnone
  obtain ⟨n, hlower, hupper⟩ := between_of_onGrid? h.pos hnone
  have hgrid : (10 : ℚ) ^ (top - 17) * 10 ^ 16 ≤ m * 2 ^ q := by
    refine le_trans (le_of_eq ?_) htop
    rw [← zpow_natCast, ← zpow_add₀ (by norm_num)]
    congr 1
    ring
  have hplace : (0 : ℚ) < 2 ^ (q - 2) := by positivity
  rw [zpow_eq_four_mul q] at hgrid
  unfold lowerEnd at hlower
  unfold upperEnd at hupper
  push_cast at hupper
  have hwidth : (2 + quartersBelow m q) * 2 ^ (q - 2) ≤ (10 : ℚ) ^ (top - 17) := by linarith
  have hdigits : ((2 + quartersBelow m q) * 10 ^ 16 : ℚ) ≤ 4 * m := by
    refine le_of_mul_le_mul_right ?_ hplace
    linarith
  have hdigits : (2 + quartersBelow m q) * 10 ^ 16 ≤ 4 * m := by exact_mod_cast hdigits
  have hm := h.lt
  unfold quartersBelow at hdigits
  split at hdigits
  next hpower =>
    rw [hpower.1] at hdigits
    exact absurd hdigits (by decide)
  next => omega

/-- A power of ten is not above ten times a power of two, if their exponents are in a ratio `M / N` that is
about the logarithm of two. -/
theorem pow10_le_of_ratio {N M : Nat} (hN : 0 < N) (hlow : 2 ^ N ≤ 10 ^ M) (hhigh : 10 ^ M ≤ 2 ^ (N + 1))
    {t p : Int} (ht : t ≤ N) (hp : p * N ≤ t * M) : (10 : ℚ) ^ (p - 1) ≤ 2 ^ t := by
  have hlow : (2 : ℚ) ^ N ≤ 10 ^ M := by exact_mod_cast hlow
  have hhigh : (10 : ℚ) ^ M ≤ 2 ^ (N + 1) := by exact_mod_cast hhigh
  -- Both sides are compared by their powers with exponent `N`.
  have hroot : ((10 : ℚ) ^ (p - 1)) ^ N ≤ (2 ^ t) ^ N → (10 : ℚ) ^ (p - 1) ≤ 2 ^ t :=
    (pow_le_pow_iff_left₀ (by positivity) (by positivity) hN.ne').mp
  apply hroot
  have hleft : ((10 : ℚ) ^ (p - 1)) ^ N ≤ 10 ^ (t * M - N) := by
    rw [← zpow_natCast, ← zpow_mul]
    exact zpow_le_zpow_right₀ (by norm_num) (by linarith)
  refine hleft.trans ?_
  rw [zpow_sub₀ (by norm_num), zpow_natCast, div_le_iff₀ (by positivity)]
  obtain ⟨s, rfl | rfl⟩ := t.eq_nat_or_neg
  · have hs : (2 : ℚ) ^ s ≤ 10 ^ N := by
      calc (2 : ℚ) ^ s ≤ 2 ^ N := pow_le_pow_right₀ (by norm_num) (by exact_mod_cast ht)
        _ ≤ 10 ^ N := by gcongr; norm_num
    calc (10 : ℚ) ^ ((s : Int) * M) = (10 ^ M) ^ s := by
          rw [← pow_mul, mul_comm M, ← zpow_natCast]
          norm_cast
      _ ≤ (2 ^ (N + 1)) ^ s := by gcongr
      _ = (2 ^ s) ^ N * 2 ^ s := by ring
      _ ≤ (2 ^ s) ^ N * 10 ^ N := by gcongr
      _ = _ := by rw [zpow_natCast]
  · calc (10 : ℚ) ^ (-(s : Int) * M) = ((10 ^ M) ^ s)⁻¹ := by
          rw [← pow_mul, mul_comm M, neg_mul, zpow_neg]
          norm_cast
      _ ≤ ((2 ^ N) ^ s)⁻¹ := by gcongr
      _ = (2 ^ (-(s : Int))) ^ N := by
        rw [zpow_neg, inv_pow, zpow_natCast, ← pow_mul, ← pow_mul, mul_comm N]
      _ ≤ (2 ^ (-(s : Int))) ^ N * 10 ^ N :=
        le_mul_of_one_le_right (by positivity) (one_le_pow₀ (by norm_num))

/-- The decimal exponent that is tried first is at most one too large. -/
theorem pow10_le_pow2 {t : Int} (ht : t ≤ 1023) : (10 : ℚ) ^ (t * 30103 / 100000 - 1) ≤ 2 ^ t := by
  have hlow : 2 ^ 100000 ≤ 10 ^ 30103 := by decide +kernel
  have hhigh : 10 ^ 30103 ≤ 2 ^ (100000 + 1) := by decide +kernel
  exact pow10_le_of_ratio (by decide) hlow hhigh (by omega) (by omega)

/-- The number of digits before the point that a search starts from is not too large. -/
theorem decimalTop_le {a b : Nat} {t : Int} (ht : t ≤ 1023) (hb : 0 < b) (hab : (2 ^ t : ℚ) ≤ a / b) :
    (10 : ℚ) ^ (decimalTop a b t - 1) ≤ a / b := by
  have hb : (0 : ℚ) < b := by exact_mod_cast hb
  have hbelow {p : Int} (h : ¬ belowPow10 a b p = true) : (10 : ℚ) ^ p ≤ a / b := by
    rw [belowPow10_iff, not_lt, mul_comm] at h
    rwa [le_div_iff₀ hb]
  rw [decimalTop]
  split
  · exact (pow10_le_pow2 ht).trans hab
  next hp =>
    split
    · rw [add_sub_cancel_right]
      exact hbelow hp
    next hp' =>
      have htop : t * 30103 / 100000 + 2 - 1 = t * 30103 / 100000 + 1 := by ring
      rw [htop]
      exact hbelow hp'

/-- The search for a double starts from no more digits before the point than the double has. -/
theorem Canonical.decimalTop_le (h : Canonical m q) :
    let r := Rounding.of m q
    (10 : ℚ) ^ (decimalTop r.value r.denominator (m.log2 + q) - 1) ≤ m * 2 ^ q := by
  have hlog : (2 : ℚ) ^ m.log2 ≤ m := by exact_mod_cast Nat.log2_self_le h.pos.ne'
  have hlog' : m.log2 < 53 := (Nat.log2_lt h.pos.ne').mpr h.lt
  have hgreatest := h.greatest
  dsimp only
  rw [← Rounding.value_of]
  refine Decimal.decimalTop_le (by omega) Rounding.denominator_of_pos ?_
  rw [Rounding.value_of, zpow_add₀ (by norm_num), zpow_natCast]
  gcongr

/-- The shortest digits of a double lie in its interval. -/
theorem shortest_within (h : Canonical m q) (tie : Tie) :
    Within m q ((shortest tie m q).significand * 10 ^ (shortest tie m q).exponent) := by
  rw [shortest]
  split
  next n count hfound =>
    obtain ⟨count, -, hcount⟩ := List.exists_of_findSome?_eq_some hfound
    obtain ⟨n, hgrid, heq⟩ := Option.map_eq_some_iff.mp hcount
    cases heq
    have hin := within_of_onGrid? h.pos hgrid
    split
    next hpower =>
      rw [hpower, cast_pow10, ← zpow_natCast, ← zpow_add₀ (by norm_num), add_sub_cancel] at hin
      rwa [Nat.cast_one, one_mul]
    next => exact hin
  next hfound =>
    have hnone := List.findSome?_eq_none_iff.mp hfound 17 (by decide)
    exact absurd (Option.map_eq_none_iff.mp hnone) (onGrid?_ne_none h h.decimalTop_le)

end

end PoseLang.Decimal
