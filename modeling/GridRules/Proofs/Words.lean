import GridRules.Proofs.Comparison
import GridRules.Proofs.ReadBack

/-! Texts of doubles that are read as words. A text that is read as a word is read as the nearest
double of the word as a double, so the word that the text of a double shows need not be the number
that the double stands for. It is below `2 ^ 53`. -/
namespace GridRules

namespace Word

theorem unsigned?_eq_some_iff {i : Int} {m : UInt64} :
    unsigned? i = some m ↔ (m.toNat : Int) = i := by
  constructor
  · intro h
    rw [unsigned?] at h
    split at h
    · rename_i hi
      cases h
      have hlt : i.toNat < UInt64.size := by omega
      rw [UInt64.toNat_ofNat_of_lt' hlt]
      omega
    · cases h
  · rintro rfl
    exact unsigned?_toNat m

theorem toNat_of_unsigned? {k : Nat} {n : UInt64} (h : unsigned? k = some n) : n.toNat = k :=
  Int.ofNat_inj.mp (unsigned?_eq_some_iff.mp h)

end Word

namespace Decimal
open Binary64 (infinityBits)

theorem natural?_eq_some {cs : List Char} {n : Nat} (h : natural? cs = some n) :
    cs ≠ [] ∧ (∀ c ∈ cs, c.isDigit = true) ∧ ofDigits cs = n := by
  simp only [natural?, List.all_eq_true] at h
  split at h
  · rename_i hcs
    exact ⟨hcs.1, hcs.2, Option.some.inj h⟩
  · cases h

theorem unsignedDouble?_of_natural? {cs : List Char} {n : Nat} (h : natural? cs = some n) :
    unsignedDouble? false cs = some (Binary64.ofInt n) := by
  obtain ⟨hne, hcs, rfl⟩ := natural?_eq_some h
  have hsign : decide ((ofDigits cs : Int) < 0) = false := decide_eq_false (by omega)
  rw [unsignedDouble?_of_decimal? (fun c hc => Token.isNumberChar_of_isDigit (hcs c hc))
    (decimal?_digits hne hcs)]
  simp [nearest, Binary64.ofInt, tenTo_eq, hsign]

/-- What is read as a word is read as the nearest double of the word as a double. -/
theorem double?_of_uint64? {text : String} {n : UInt64} (h : uint64? text = some n) :
    double? text = some (Binary64.ofInt n.toNat) := by
  obtain ⟨k, hk, hn⟩ := Option.bind_eq_some_iff.mp h
  rw [Word.toNat_of_unsigned? hn]
  unfold unsigned? at hk
  unfold double?
  split at hk
  · rename_i cs htext
    rw [htext]
    exact unsignedDouble?_of_natural? hk
  · rename_i htext
    have hdigits := (natural?_eq_some hk).2.1
    split
    · rename_i cs hcs
      rw [hcs] at hdigits
      exact absurd (hdigits '-' (by simp)) (by decide)
    · rename_i cs hcs
      exact absurd hcs (htext cs)
    · exact unsignedDouble?_of_natural? hk

end Decimal

namespace Binary64

/-- From the limit on, doubles stand for numbers that are too large for a word. -/
theorem le_units_of_limit {bits : Nat} (h : limitBits ≤ bits) : 2 ^ 64 * one ≤ units bits := by
  obtain ⟨k, q, rfl, hunits, hq, hk⟩ := exists_units bits
  have hbound : 1086 ≤ k ∧ leadingBit ≤ q := by
    simp only [limitBits, leadingBit] at *
    omega
  rw [hunits, Nat.shiftLeft_eq, one_eq]
  calc 2 ^ 64 * 2 ^ 1074 = leadingBit * 2 ^ 1086 := by decide +kernel
    _ ≤ q * 2 ^ k := Nat.mul_le_mul hbound.2 (Nat.pow_le_pow_right (by decide) hbound.1)

theorem nearest_limit : nearest (2 ^ 64) 1 = limitBits := by decide +kernel

end Binary64

namespace Evaluate
open Binary64 (isFinite isNegative magnitudeBits units one whole limitBits infinityBits)

variable {x : Float}

/-- Whole numbers from zero up that fit into a word are exact words. -/
theorem wordOfDouble?_of_units {m : Nat} (hfin : isFinite x = true) (hneg : isNegative x = false)
    (hunits : units (magnitudeBits x) = m * one) (hm : m < 2 ^ 64) :
    wordOfDouble? x = some (UInt64.ofNat m) := by
  have hwhole : whole x = m := by rw [whole, hunits, Nat.mul_div_cancel _ Binary64.one_pos]
  have hisWhole : Binary64.isWhole x = true := by simp [Binary64.isWhole, hfin, hunits]
  have hlimit : magnitudeBits x < limitBits := by
    by_contra h
    have hle := Binary64.le_units_of_limit (Nat.le_of_not_lt h)
    rw [hunits] at hle
    exact absurd (Nat.le_of_mul_le_mul_right hle Binary64.one_pos) (Nat.not_le.mpr hm)
  have hword : Binary64.toUInt64 x = UInt64.ofNat m := by
    have hmin : min m (UInt64.size - 1) = m := Nat.min_eq_left (Nat.le_sub_one_of_lt hm)
    rw [Binary64.toUInt64, Binary64.isNaN_of_isFinite hfin, hneg, hwhole, hmin]
    rfl
  simp [wordOfDouble?, Binary64.zero_le_of_not_isNegative hneg hfin, hisWhole,
    Binary64.lt_limit hneg hlimit, hword]

/-- The text of a finite double shows a word only if the double is the nearest one of the word. -/
theorem eq_nearest_of_uint64?_text {n : UInt64} (hfin : isFinite x = true)
    (hn : Decimal.uint64? (Decimal.text x) = some n) :
    x = Binary64.ofMagnitude false (Binary64.nearest n.toNat 1) := by
  have hread := Decimal.double?_of_uint64? hn
  have hsign : decide ((n.toNat : Int) < 0) = false := decide_eq_false (by omega)
  rw [Decimal.double?_text hfin] at hread
  rw [Option.some.inj hread, Binary64.ofInt, hsign, Int.natAbs_natCast]

/-- The limit is the nearest double of the last words, but its text shows a larger number. -/
theorem uint64?_text_limit :
    Decimal.uint64? (Decimal.text (Binary64.ofMagnitude false limitBits)) = none := by
  decide +kernel

/-- A finite double whose text shows a word is a whole number that fits into a word, and below
`2 ^ 53` it is the word that its text shows. -/
theorem wordOfDouble?_of_uint64?_text {n : UInt64} (hfin : isFinite x = true)
    (hn : Decimal.uint64? (Decimal.text x) = some n) :
    wordOfDouble? x = some (UInt64.ofNat (whole x)) ∧ whole x < 2 ^ 64 ∧
      (whole x < 2 ^ 53 → n.toNat = whole x) := by
  have hx := eq_nearest_of_uint64?_text hfin hn
  have hbits : Binary64.nearest n.toNat 1 < infinityBits :=
    Binary64.nearest_word_lt n.toNat_lt_size
  have hmagnitude : magnitudeBits x = Binary64.nearest n.toNat 1 := by
    rw [hx, Binary64.magnitudeBits_ofMagnitude false hbits]
  have hneg : isNegative x = false := by rw [hx, Binary64.isNegative_ofMagnitude false hbits]
  obtain ⟨m, hunits, hle, hsmall, hlarge⟩ := Binary64.units_nearest_word n.toNat_lt_size
  rw [← hmagnitude] at hunits
  have hwhole : whole x = m := by rw [whole, hunits, Nat.mul_div_cancel _ Binary64.one_pos]
  have hne : m ≠ 2 ^ 64 := by
    intro hm
    have hlimit : magnitudeBits x = limitBits := by
      rw [← Binary64.nearest_limit]
      refine (Binary64.nearest_of_units (by rwa [hmagnitude]) Nat.one_pos ?_).symm
      rw [hunits, hm, Nat.mul_one]
    rw [hx, ← hmagnitude, hlimit, uint64?_text_limit] at hn
    cases hn
  refine ⟨hwhole ▸ wordOfDouble?_of_units hfin hneg hunits (by omega), by omega, fun h => ?_⟩
  by_cases hn' : n.toNat < 2 ^ 53
  · rw [hwhole, hsmall hn']
  · have hge := hlarge (Nat.le_of_not_lt hn')
    omega

end Evaluate
end GridRules
