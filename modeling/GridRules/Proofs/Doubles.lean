import GridRules.Evaluate
import Mathlib

/-! Finite doubles and their bits. A finite double is nothing but its bits, and one without a sign
is compared with zero and with the first number beyond the words by its bits. -/
namespace GridRules.Binary64
open Float.Model (Format UnpackedFloat)
open Float.Model.UnpackedFloat

/-! The fields of a double. -/

section Fields
variable {b : BitVec Format.binary64.numBits}

theorem toNat_unpackExponent (b : BitVec Format.binary64.numBits) :
    (unpackExponent b).toNat = b.toNat / 2 ^ 52 % 2 ^ 11 := by
  simp [unpackExponent, Nat.shiftRight_eq_div_pow]

theorem unpackSign_of_lt (h : b.toNat < 2 ^ 63) : Sign.ofBitVec (unpackSign b) = .positive := by
  have hzero : b.toNat / 2 ^ 63 = 0 := Nat.div_eq_of_lt h
  have hsign : unpackSign b = 0#1 := by
    apply BitVec.eq_of_toNat_eq
    simpa [unpackSign, Nat.shiftRight_eq_div_pow] using congrArg (· % 2) hzero
  rw [hsign]
  rfl

theorem toNat_normalMantissa (m : BitVec 52) : (1#1 ++ m).toNat = 2 ^ 52 + m.toNat := by
  have hlt := m.isLt
  rw [BitVec.toNat_append, ← Nat.shiftLeft_add_eq_or_of_lt hlt]
  rfl

theorem ne_ones_of_lt (h : (unpackExponent b).toNat < 2047) : unpackExponent b ≠ -1#11 := by
  intro hb
  rw [hb] at h
  exact absurd h (by decide)

/-- What the fields of a finite double stand for: a zero, a number below the normal ones, or a
normal number, which has a bit in front of its fraction. -/
theorem unpack_cases (h : (unpackExponent b).toNat < 2047) :
    (unpackExponent b = 0#11 ∧ unpackMantissa b = 0#52 ∧
      unpack .binary64 b = .zero (Sign.ofBitVec (unpackSign b))) ∨
    (unpackExponent b = 0#11 ∧ ∃ hm, unpack .binary64 b =
      .finite (Sign.ofBitVec (unpackSign b)) (unpackMantissa b).toNat (-1074) hm) ∨
    (0 < (unpackExponent b).toNat ∧ ∃ hm, unpack .binary64 b =
      .finite (Sign.ofBitVec (unpackSign b)) (2 ^ 52 + (unpackMantissa b).toNat)
        ((unpackExponent b).toNat - 1075) hm) := by
  have hones : unpackExponent b ≠ -1#11 := ne_ones_of_lt h
  by_cases he : unpackExponent b = 0#11
  · by_cases hm : unpackMantissa b = 0#52
    · exact .inl ⟨he, hm, by simp only [unpack, he, hm]; rfl⟩
    · have hpos : 0 < (unpackMantissa b).toNat := by
        simpa [BitVec.toNat_pos, BitVec.pos_iff_ne_zero] using hm
      refine .inr (.inl ⟨he, hpos, ?_⟩)
      simp only [unpack, he, hm]
      rfl
  · have hpos : 0 < (unpackExponent b).toNat := by
      simpa [BitVec.toNat_pos, BitVec.pos_iff_ne_zero] using he
    refine .inr (.inr ⟨hpos, by omega, ?_⟩)
    simp only [unpack, hones, he, if_false, toNat_normalMantissa]
    rfl

/-- Unpacking a finite double and packing it again gives its bits. -/
theorem pack_unpack_of_lt (h : (unpackExponent b).toNat < 2047) :
    pack .binary64 (unpack .binary64 b) = b := by
  have hnumber : isNaNBits b = false := decide_eq_false fun hb => ne_ones_of_lt h hb.1
  rw [pack_unpack, hnumber]
  rfl

end Fields

/-! Doubles and their bits. -/

theorem exponent_lt {w : UInt64} (h : w.toNat % signBit < infinityBits) :
    (@unpackExponent .binary64 w.toBitVec).toNat < 2047 := by
  have hw : w.toBitVec.toNat = w.toNat := rfl
  simp only [signBit, infinityBits, leadingBit] at h
  rw [toNat_unpackExponent, hw]
  omega

theorem toBits_ofBits {w : UInt64} (h : w.toNat % signBit < infinityBits) :
    (Float.ofBits w).toBits = w :=
  congrArg UInt64.ofBitVec (pack_unpack_of_lt (exponent_lt h))

theorem isFinite_iff {x : Float} :
    isFinite x = true ↔ x.toBits.toNat % signBit < infinityBits := decide_eq_true_iff

theorem isNegative_iff {x : Float} : isNegative x = true ↔ signBit ≤ x.toBits.toNat :=
  decide_eq_true_iff

theorem ofMagnitude_magnitudeBits {x : Float} (h : isFinite x = true) :
    ofMagnitude (isNegative x) (magnitudeBits x) = x := by
  have hbits : (if isNegative x then signBit + magnitudeBits x else magnitudeBits x) =
      x.toBits.toNat := by
    have hlt : x.toBits.toNat < UInt64.size := x.toBits.toNat_lt_size
    rw [magnitudeBits]
    simp only [isNegative_iff, signBit, UInt64.size] at hlt ⊢
    split <;> omega
  apply Float.toBits_inj.mp
  rw [ofMagnitude, hbits, UInt64.ofNat_toNat, toBits_ofBits (isFinite_iff.mp h)]

theorem toBits_ofMagnitude (negative : Bool) {bits : Nat} (h : bits < infinityBits) :
    (ofMagnitude negative bits).toBits.toNat = if negative then signBit + bits else bits := by
  have hlt : (if negative then signBit + bits else bits) < UInt64.size := by
    simp only [infinityBits, leadingBit, signBit, UInt64.size] at h ⊢
    split <;> omega
  have hword : (UInt64.ofNat (if negative then signBit + bits else bits)).toNat =
      if negative then signBit + bits else bits := UInt64.toNat_ofNat_of_lt' hlt
  rw [ofMagnitude, toBits_ofBits, hword]
  rw [hword]
  simp only [infinityBits, leadingBit, signBit] at h ⊢
  split <;> omega

theorem magnitudeBits_ofMagnitude (negative : Bool) {bits : Nat} (h : bits < infinityBits) :
    magnitudeBits (ofMagnitude negative bits) = bits := by
  rw [magnitudeBits, toBits_ofMagnitude negative h]
  simp only [infinityBits, leadingBit, signBit] at h ⊢
  split <;> omega

theorem isNegative_ofMagnitude (negative : Bool) {bits : Nat} (h : bits < infinityBits) :
    isNegative (ofMagnitude negative bits) = negative := by
  rw [isNegative, toBits_ofMagnitude negative h]
  simp only [infinityBits, leadingBit, signBit] at h ⊢
  cases negative with
  | true => simp
  | false => exact decide_eq_false (by simp; omega)

theorem isNaN_of_isFinite {x : Float} (h : isFinite x = true) : x.isNaN = false := by
  show x.toModel.unpack.isNaN = false
  obtain ⟨-, -, hb⟩ | ⟨-, hm, hb⟩ | ⟨-, hm, hb⟩ :=
    unpack_cases (exponent_lt (isFinite_iff.mp h)) <;> exact congrArg UnpackedFloat.isNaN hb

/-! Doubles without a sign. -/

section Unsigned
variable {x : Float}

/-- A finite double without a sign is a zero or has an exponent that its bits give. -/
theorem unpack_of_not_isNegative (hneg : isNegative x = false) (hfin : isFinite x = true) :
    x.toModel.unpack = .zero .positive ∨
      ∃ m e hm, x.toModel.unpack = .finite .positive m e hm ∧
        (e = -1074 ∨ e = ((magnitudeBits x / leadingBit : Nat) : Int) - 1075) := by
  have hbits : x.toBits.toNat < signBit := by simpa [isNegative] using hneg
  have hmagnitude : magnitudeBits x = x.toBits.toNat := Nat.mod_eq_of_lt hbits
  have hword : x.toBits.toBitVec.toNat = x.toBits.toNat := rfl
  have hsign : Sign.ofBitVec (@unpackSign .binary64 x.toBits.toBitVec) = .positive :=
    unpackSign_of_lt hbits
  have hexponent : (@unpackExponent .binary64 x.toBits.toBitVec).toNat =
      magnitudeBits x / leadingBit := by
    rw [toNat_unpackExponent, hmagnitude, hword]
    simp only [signBit, leadingBit] at hbits ⊢
    exact Nat.mod_eq_of_lt (by omega)
  obtain ⟨-, -, hb⟩ | ⟨-, hm, hb⟩ | ⟨-, hm, hb⟩ := unpack_cases (exponent_lt (isFinite_iff.mp hfin))
  · exact .inl (hsign ▸ hb)
  · exact .inr ⟨_, _, hm, hsign ▸ hb, .inl rfl⟩
  · exact .inr ⟨_, _, hm, hsign ▸ hb, .inr (by rw [hexponent])⟩

theorem zero_le_of_not_isNegative (hneg : isNegative x = false) (hfin : isFinite x = true) :
    0 ≤ x := by
  have hzero : (0 : Float).toModel.unpack = .zero .positive := rfl
  have hle : UnpackedFloat.le (0 : Float).toModel.unpack x.toModel.unpack = true := by
    obtain hx | ⟨m, e, hm, hx, -⟩ := unpack_of_not_isNegative hneg hfin <;> rw [hzero, hx] <;> rfl
  exact decide_eq_true hle

/-- The bits of the first number that is too large for a word. -/
def limitBits : Nat := 1087 * leadingBit

theorem lt_limit (hneg : isNegative x = false) (h : magnitudeBits x < limitBits) :
    x < 18446744073709551616 := by
  have hfin : isFinite x = true := by
    have hlimit : limitBits < infinityBits := by decide
    exact isFinite_iff.mpr (Nat.lt_trans h hlimit)
  have hlimit : (18446744073709551616 : Float).toModel.unpack =
      .finite .positive (2 ^ 52) 12 (by decide) := rfl
  have hexponent : magnitudeBits x / leadingBit < 1087 := Nat.div_lt_of_lt_mul (Nat.mul_comm _ _ ▸ h)
  have hlt : UnpackedFloat.lt x.toModel.unpack (18446744073709551616 : Float).toModel.unpack =
      true := by
    obtain hx | ⟨m, e, hm, hx, he⟩ := unpack_of_not_isNegative hneg hfin
    · rw [hlimit, hx]
      rfl
    · have hsmall : compare e 12 = .lt := Int.compare_eq_lt.mpr (by omega)
      rw [hlimit, hx]
      simp [UnpackedFloat.lt, UnpackedFloat.compare, hsmall]
  exact decide_eq_true hlt

end Unsigned

end GridRules.Binary64
