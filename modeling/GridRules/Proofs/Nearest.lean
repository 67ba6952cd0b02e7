import GridRules.Binary64.Bits
import Mathlib.Tactic.Positivity
import Mathlib.Tactic.Ring

/-! The nearest double of a fraction. It depends on the fraction alone, and a fraction that is the
value of a double is rounded to that double. -/
namespace GridRules.Binary64

theorem one_eq : one = 2 ^ 1074 := by decide +kernel

theorem one_pos : 0 < one := by decide +kernel

theorem leadingBit_eq : leadingBit = 2 ^ 52 := by decide

/-! Rounded quotients. -/

theorem roundDiv_mul_mul (a b : Nat) {k : Nat} (hk : 0 < k) :
    roundDiv (a * k) (b * k) = roundDiv a b := by
  have hlt (m n : Nat) : 2 * (m * k) < n * k ↔ 2 * m < n := by
    rw [← Nat.mul_assoc]
    exact Nat.mul_lt_mul_right hk
  have heq (m n : Nat) : 2 * (m * k) = n * k ↔ 2 * m = n := by
    rw [← Nat.mul_assoc]
    exact Nat.mul_left_inj (Nat.ne_of_gt hk)
  simp only [roundDiv, Nat.mul_div_mul_right _ _ hk, Nat.mul_mod_mul_right, hlt, heq]

theorem roundDiv_le (a b : Nat) : roundDiv a b ≤ a / b + 1 := by
  simp only [roundDiv]
  split <;> omega

theorem le_roundDiv (a b : Nat) : a / b ≤ roundDiv a b := by
  simp only [roundDiv]
  split <;> omega

theorem nearest_eq (n d : Nat) :
    nearest n d = min infinityBits (((n * one / d).log2 - 52) * leadingBit +
      roundDiv (n * one) (d <<< ((n * one / d).log2 - 52))) := rfl

theorem nearest_mul_mul (n d : Nat) {k : Nat} (hk : 0 < k) :
    nearest (n * k) (d * k) = nearest n d := by
  have hscaled : n * k * one = n * one * k := by ring
  have hshift (s : Nat) : (d * k) <<< s = (d <<< s) * k := by
    rw [Nat.shiftLeft_eq, Nat.shiftLeft_eq]
    ring
  simp only [nearest, hscaled, Nat.mul_div_mul_right _ _ hk, hshift, roundDiv_mul_mul _ _ hk]

/-- Equal fractions have the same nearest double. -/
theorem nearest_congr {n d n' d' : Nat} (hd : 0 < d) (hd' : 0 < d') (h : n * d' = n' * d) :
    nearest n d = nearest n' d' :=
  calc nearest n d = nearest (n * d') (d * d') := (nearest_mul_mul n d hd').symm
    _ = nearest (n' * d) (d' * d) := by rw [h, Nat.mul_comm d d']
    _ = nearest n' d' := nearest_mul_mul n' d' hd

/-! Units and bits. -/

/-- A number of units with 53 digits in base two, `k` places further up. -/
theorem units_add (k : Nat) {q : Nat} (hq : leadingBit ≤ q) (hq' : q ≤ 2 * leadingBit) :
    units (k * leadingBit + q) = q <<< k := by
  have hnormal : ¬ k * leadingBit + q < leadingBit := by omega
  obtain hlt | rfl := Nat.lt_or_eq_of_le hq'
  · have hdiv : (k * leadingBit + q) / leadingBit = k + 1 := by
      simp only [leadingBit] at *
      omega
    have hmod : leadingBit + (k * leadingBit + q) % leadingBit = q := by
      simp only [leadingBit] at *
      omega
    rw [units, if_neg hnormal, hdiv, hmod, Nat.add_sub_cancel]
  · have hdiv : (k * leadingBit + 2 * leadingBit) / leadingBit - 1 = k + 1 := by
      simp only [leadingBit]
      omega
    have hmod : (k * leadingBit + 2 * leadingBit) % leadingBit = 0 := by
      simp only [leadingBit]
      omega
    rw [units, if_neg hnormal, hdiv, hmod, Nat.add_zero, Nat.shiftLeft_eq, Nat.shiftLeft_eq]
    ring

theorem units_of_le {q : Nat} (hq : q ≤ 2 * leadingBit) : units q = q := by
  by_cases hlt : q < leadingBit
  · rw [units, if_pos hlt]
  · have hunits := units_add 0 (Nat.le_of_not_lt hlt) hq
    rwa [Nat.zero_mul, Nat.zero_add] at hunits

/-- Bits are those of a number with 53 digits or less in base two, `k` places further up. -/
theorem exists_units (bits : Nat) : ∃ k q, bits = k * leadingBit + q ∧ units bits = q <<< k ∧
    q < 2 * leadingBit ∧ (k = 0 ∨ leadingBit ≤ q) := by
  by_cases hlt : bits < leadingBit
  · exact ⟨0, bits, by omega, by rw [units, if_pos hlt, Nat.shiftLeft_zero], by omega, .inl rfl⟩
  · refine ⟨bits / leadingBit - 1, leadingBit + bits % leadingBit, ?_, ?_, ?_, .inr ?_⟩
    · simp only [leadingBit] at *
      omega
    · rw [units, if_neg hlt]
    · simp only [leadingBit]
      omega
    · exact Nat.le_add_right _ _

/-- How far up the first 53 digits of a number in base two stand. -/
theorem log2_sub {k q : Nat} (hq : q < 2 * leadingBit) (hk : k = 0 ∨ leadingBit ≤ q) :
    (q <<< k).log2 - 52 = k := by
  rw [leadingBit_eq] at hq hk
  by_cases hzero : q = 0
  · subst hzero
    simp at hk ⊢
    exact hk.symm
  · obtain rfl | hk := hk
    · have hlog : q.log2 < 53 := (Nat.log2_lt hzero).mpr (by omega)
      rw [Nat.shiftLeft_zero]
      omega
    · have hlog : (q <<< k).log2 = k + 52 := by
        rw [Nat.shiftLeft_eq]
        refine (Nat.log2_eq_iff (Nat.mul_ne_zero hzero (by positivity))).mpr ⟨?_, ?_⟩
        · rw [Nat.pow_add, Nat.mul_comm]
          exact Nat.mul_le_mul_right _ hk
        · rw [Nat.add_assoc, Nat.pow_add, Nat.mul_comm]
          exact (Nat.mul_lt_mul_left (by positivity)).mpr hq
      omega

/-- A fraction that is the value of a double is rounded to that double. -/
theorem nearest_of_units {bits n d : Nat} (hfin : bits < infinityBits) (hd : 0 < d)
    (h : n * one = units bits * d) : nearest n d = bits := by
  obtain ⟨k, q, hbits, hunits, hq, hk⟩ := exists_units bits
  have hscaled : n * one = q * (d <<< k) := by
    rw [h, hunits, Nat.shiftLeft_eq, Nat.shiftLeft_eq]
    ring
  have hquotient : n * one / d = q <<< k := by
    rw [h, hunits, Nat.mul_div_cancel _ hd]
  have hpos : 0 < d <<< k := by
    rw [Nat.shiftLeft_eq]
    positivity
  rw [nearest_eq, hquotient, log2_sub hq hk, hscaled, roundDiv_mul _ _ hpos, ← hbits]
  exact Nat.min_eq_right (Nat.le_of_lt hfin)

/-! The units of the nearest double. -/

theorem div_shiftLeft (a d k : Nat) : a / (d <<< k) = a / d / 2 ^ k := by
  rw [Nat.shiftLeft_eq, Nat.div_div_eq_div_mul]

/-- The first digits of a quotient are 53 digits in base two, or less if there are no more. -/
theorem quotient_bounds (t : Nat) :
    t / 2 ^ (t.log2 - 52) < 2 * leadingBit ∧
      (t.log2 - 52 = 0 ∨ leadingBit ≤ t / 2 ^ (t.log2 - 52)) := by
  rw [leadingBit_eq]
  have hlt : t < 2 ^ (t.log2 + 1) := Nat.lt_log2_self
  refine ⟨?_, ?_⟩
  · rw [Nat.div_lt_iff_lt_mul (by positivity), ← Nat.pow_succ', ← Nat.pow_add]
    exact Nat.lt_of_lt_of_le hlt (Nat.pow_le_pow_right (by decide) (by omega))
  · by_cases hlog : t.log2 ≤ 52
    · exact .inl (by omega)
    · have ht : t ≠ 0 := by
        intro hzero
        simp [hzero] at hlog
      refine .inr ((Nat.le_div_iff_mul_le (by positivity)).mpr ?_)
      rw [← Nat.pow_add, show 52 + (t.log2 - 52) = t.log2 by omega]
      exact Nat.log2_self_le ht

/-- The value of the nearest double, unless it is infinite. -/
theorem units_nearest {n d : Nat} (hfin : nearest n d < infinityBits) :
    units (nearest n d) = roundDiv (n * one) (d <<< ((n * one / d).log2 - 52)) <<<
      ((n * one / d).log2 - 52) := by
  obtain ⟨hlt, hle⟩ := quotient_bounds (n * one / d)
  have hupper := roundDiv_le (n * one) (d <<< ((n * one / d).log2 - 52))
  have hlower := le_roundDiv (n * one) (d <<< ((n * one / d).log2 - 52))
  rw [div_shiftLeft] at hupper hlower
  have hbits : nearest n d = ((n * one / d).log2 - 52) * leadingBit +
      roundDiv (n * one) (d <<< ((n * one / d).log2 - 52)) := by
    rw [nearest_eq] at hfin ⊢
    omega
  rw [hbits]
  obtain hzero | hle := hle
  · rw [hzero] at hupper hlt ⊢
    rw [Nat.zero_mul, Nat.zero_add, Nat.shiftLeft_zero, Nat.shiftLeft_zero]
    exact units_of_le (by rw [Nat.shiftLeft_zero] at hupper; omega)
  · exact units_add _ (by omega) (by omega)

/-! The nearest doubles of words. -/

theorem log2_mul_two_pow {n : Nat} (hn : n ≠ 0) (k : Nat) : (n * 2 ^ k).log2 = n.log2 + k := by
  refine (Nat.log2_eq_iff (Nat.mul_ne_zero hn (by positivity))).mpr ⟨?_, ?_⟩
  · rw [Nat.pow_add]
    exact Nat.mul_le_mul_right _ (Nat.log2_self_le hn)
  · rw [Nat.add_right_comm, Nat.pow_add]
    exact (Nat.mul_lt_mul_right (by positivity)).mpr Nat.lt_log2_self

theorem log2_mul_one {n : Nat} (hn : n ≠ 0) : (n * one).log2 = n.log2 + 1074 := by
  rw [one_eq, log2_mul_two_pow hn]

theorem two_pow_mul_two_pow {i j : Nat} (h : i + j = 1074) : 2 ^ i * 2 ^ j = one :=
  (Nat.pow_add 2 i j).symm.trans ((congrArg (2 ^ ·) h).trans one_eq.symm)

theorem log2_word_sub {n : Nat} (hn : n ≠ 0) : (n * one).log2 - 52 = n.log2 + 1022 := by
  rw [log2_mul_one hn]
  omega

theorem nearest_word_lt {n : Nat} (hn : n < 2 ^ 64) : nearest n 1 < infinityBits := by
  by_cases hzero : n = 0
  · subst hzero
    decide +kernel
  have hlog : n.log2 < 64 := (Nat.log2_lt hzero).mpr hn
  obtain ⟨hupper, -⟩ := quotient_bounds (n * one)
  have hle := roundDiv_le (n * one) (1 <<< (n.log2 + 1022))
  rw [log2_word_sub hzero] at hupper
  rw [div_shiftLeft, Nat.div_one] at hle
  rw [nearest_eq, Nat.div_one, log2_word_sub hzero]
  simp only [leadingBit, infinityBits] at *
  omega

/-- Words below `2 ^ 53` are values of doubles. -/
theorem units_nearest_small {n : Nat} (hn : n < 2 ^ 53) : units (nearest n 1) = n * one := by
  by_cases hzero : n = 0
  · subst hzero
    decide +kernel
  have hunits := units_nearest (nearest_word_lt (Nat.lt_trans hn (by decide)))
  have hlog : n.log2 < 53 := (Nat.log2_lt hzero).mpr hn
  have hpow : 2 ^ (52 - n.log2) * 2 ^ (n.log2 + 1022) = one := two_pow_mul_two_pow (by omega)
  have hexact : n * one = n * 2 ^ (52 - n.log2) * (1 <<< (n.log2 + 1022)) := by
    rw [Nat.one_shiftLeft, Nat.mul_assoc, hpow]
  have hpos : 0 < 1 <<< (n.log2 + 1022) := by
    rw [Nat.one_shiftLeft]
    positivity
  rw [Nat.div_one, log2_word_sub hzero, hexact, roundDiv_mul _ _ hpos] at hunits
  rw [hunits, hexact, Nat.shiftLeft_eq, Nat.one_shiftLeft]

/-- From `2 ^ 53` on the nearest double of a word is a whole number that is no smaller. -/
theorem units_nearest_large {n : Nat} (hn : n < 2 ^ 64) (hlarge : 2 ^ 53 ≤ n) :
    ∃ m, units (nearest n 1) = m * one ∧ 2 ^ 53 ≤ m ∧ m ≤ 2 ^ 64 := by
  have hzero : n ≠ 0 := by omega
  have hunits := units_nearest (nearest_word_lt hn)
  have hlog : 53 ≤ n.log2 := (Nat.le_log2 hzero).mpr hlarge
  have hlog' : n.log2 < 64 := (Nat.log2_lt hzero).mpr hn
  obtain ⟨hupper, hlower⟩ := quotient_bounds (n * one)
  have hle := roundDiv_le (n * one) (1 <<< (n.log2 + 1022))
  have hge := le_roundDiv (n * one) (1 <<< (n.log2 + 1022))
  rw [Nat.div_one, log2_word_sub hzero, Nat.shiftLeft_eq] at hunits
  rw [log2_word_sub hzero] at hupper hlower
  rw [div_shiftLeft, Nat.div_one] at hle hge
  have hhigh : leadingBit ≤ n * one / 2 ^ (n.log2 + 1022) := hlower.resolve_left (by omega)
  have hpow : 2 ^ (n.log2 + 1022) = 2 ^ (n.log2 - 52) * one := by
    rw [one_eq, ← Nat.pow_add]
    congr 1
    omega
  -- the 53 digits that the quotient is rounded to
  generalize roundDiv (n * one) (1 <<< (n.log2 + 1022)) = q at *
  refine ⟨q * 2 ^ (n.log2 - 52), by rw [hunits, hpow, Nat.mul_assoc], ?_, ?_⟩
  · calc 2 ^ 53 = leadingBit * 2 ^ 1 := by decide
      _ ≤ q * 2 ^ (n.log2 - 52) :=
          Nat.mul_le_mul (by omega) (Nat.pow_le_pow_right (by decide) (by omega))
  · calc q * 2 ^ (n.log2 - 52) ≤ (2 * leadingBit) * 2 ^ 11 :=
          Nat.mul_le_mul (by omega) (Nat.pow_le_pow_right (by decide) (by omega))
      _ = 2 ^ 64 := by decide

/-- The nearest double of a word is a whole number up to `2 ^ 64`. Below `2 ^ 53` it is the word
itself, and no other word comes below. -/
theorem units_nearest_word {n : Nat} (hn : n < 2 ^ 64) :
    ∃ m, units (nearest n 1) = m * one ∧ m ≤ 2 ^ 64 ∧ (n < 2 ^ 53 → m = n) ∧
      (2 ^ 53 ≤ n → 2 ^ 53 ≤ m) := by
  by_cases hsmall : n < 2 ^ 53
  · exact ⟨n, units_nearest_small hsmall, Nat.le_of_lt hn, fun _ => rfl, fun h => h⟩
  · obtain ⟨m, hunits, hge, hle⟩ := units_nearest_large hn (Nat.le_of_not_lt hsmall)
    exact ⟨m, hunits, hle, fun h => absurd h hsmall, fun _ => hge⟩

end GridRules.Binary64
