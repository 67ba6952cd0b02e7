import GridRules.Decimal.Shortest
import GridRules.Proofs.Doubles
import GridRules.Proofs.Margins
import GridRules.Proofs.Nearest

/-! Reading a double back. The text of a finite double is a decimal whose nearest double is that
double, so it is read as the very same double. -/
namespace GridRules

namespace Decimal
open Binary64 (one infinityBits leadingBit)

/-- The nearest double of a decimal, however large or small the decimal is. -/
def nearest (d : Decimal) : Nat :=
  Binary64.nearest (d.coefficient * tenTo d.exponent.toNat) (tenTo (-d.exponent).toNat)

theorem tenTo_eq (p : Nat) : tenTo p = 10 ^ p := rfl

theorem tenTo_add (p q : Nat) : tenTo (p + q) = tenTo p * tenTo q := Nat.pow_add 10 p q

theorem tenTo_pos (p : Nat) : 0 < tenTo p := Nat.pow_pos (by decide)

theorem tenTo_le {p q : Nat} (h : p ≤ q) : tenTo p ≤ tenTo q := Nat.pow_le_pow_right (by decide) h

/-! Decimals beyond all doubles, and below all of them. -/

theorem digitCount_pos (n : Nat) : 0 < digitCount n := by
  rw [digitCount, Nat.repr_eq_ofList_toDigits, String.length_ofList]
  exact Nat.length_toDigits_pos

theorem digitCount_le_iff {n k : Nat} (hk : 0 < k) : digitCount n ≤ k ↔ n < tenTo k := by
  rw [digitCount, Nat.repr_eq_ofList_toDigits, String.length_ofList]
  exact Nat.length_toDigits_le_iff (by decide) hk

theorem lt_tenTo_digitCount (n : Nat) : n < tenTo (digitCount n) :=
  (digitCount_le_iff (digitCount_pos n)).mp (Nat.le_refl _)

theorem tenTo_le_of_lt_digitCount {n k : Nat} (hn : n ≠ 0) (hk : k < digitCount n) :
    tenTo k ≤ n := by
  by_cases hzero : k = 0
  · subst hzero
    exact Nat.pos_of_ne_zero hn
  · rw [← Nat.not_lt, ← digitCount_le_iff (Nat.pos_of_ne_zero hzero)]
    omega

theorem nearest_eq_zero {n d : Nat} (h : 2 * (n * one) < d) : Binary64.nearest n d = 0 := by
  have hzero : n * one / d = 0 := Nat.div_eq_of_lt (by omega)
  have hmod : n * one % d = n * one := Nat.mod_eq_of_lt (by omega)
  simp [Binary64.nearest_eq, hzero, Binary64.roundDiv, hmod, h]

theorem nearest_eq_infinity {n d k : Nat} (hd : 0 < d) (hk : 2103 ≤ k) (h : 2 ^ k * d ≤ n * one) :
    Binary64.nearest n d = infinityBits := by
  have hquotient : 2 ^ k ≤ n * one / d := (Nat.le_div_iff_mul_le hd).mpr h
  have hpos : n * one / d ≠ 0 := by
    have htwo := Nat.two_pow_pos k
    omega
  have hlog : k ≤ (n * one / d).log2 := (Nat.le_log2 hpos).mpr hquotient
  rw [Binary64.nearest_eq]
  refine Nat.min_eq_left (Nat.le_add_right_of_le ?_)
  exact Nat.mul_le_mul_right leadingBit (by omega)

theorem nearest_of_small {d : Decimal} (h : d.exponent + digitCount d.coefficient < -330) :
    d.nearest = 0 := by
  have hone : 2 * one ≤ tenTo 330 := by decide +kernel
  have hlt := lt_tenTo_digitCount d.coefficient
  have hzero : d.exponent.toNat = 0 := by omega
  refine nearest_eq_zero ?_
  rw [hzero]
  calc 2 * (d.coefficient * tenTo 0 * one) = d.coefficient * (2 * one) := by
        rw [tenTo_eq]
        ring
    _ ≤ d.coefficient * tenTo 330 := Nat.mul_le_mul_left _ hone
    _ < tenTo (digitCount d.coefficient) * tenTo 330 :=
        (Nat.mul_lt_mul_right (tenTo_pos 330)).mpr hlt
    _ = tenTo (digitCount d.coefficient + 330) := (tenTo_add _ _).symm
    _ ≤ tenTo (-d.exponent).toNat := tenTo_le (by omega)

theorem nearest_of_large {d : Decimal} (hzero : d.coefficient ≠ 0)
    (h : 310 < d.exponent + digitCount d.coefficient) : d.nearest = infinityBits := by
  have hone : 2 ^ 2103 ≤ tenTo 310 * one := by decide +kernel
  have hpos := digitCount_pos d.coefficient
  have hle := tenTo_le_of_lt_digitCount hzero (Nat.sub_lt hpos Nat.one_pos)
  refine nearest_eq_infinity (tenTo_pos _) (Nat.le_refl 2103) ?_
  calc 2 ^ 2103 * tenTo (-d.exponent).toNat
      ≤ tenTo 310 * one * tenTo (-d.exponent).toNat := Nat.mul_le_mul_right _ hone
    _ = tenTo (310 + (-d.exponent).toNat) * one := by
        rw [tenTo_add]
        ring
    _ ≤ tenTo (digitCount d.coefficient - 1 + d.exponent.toNat) * one :=
        Nat.mul_le_mul_right _ (tenTo_le (by omega))
    _ ≤ d.coefficient * tenTo d.exponent.toNat * one := by
        rw [tenTo_add]
        exact Nat.mul_le_mul_right _ (Nat.mul_le_mul_right _ hle)

theorem nearest_of_zero {d : Decimal} (h : d.coefficient = 0) : d.nearest = 0 := by
  refine nearest_eq_zero ?_
  rw [h, Nat.zero_mul, Nat.zero_mul]
  exact tenTo_pos _

/-- Where no quotient is computed, it would have come to the same. -/
theorem magnitude_eq (d : Decimal) : d.magnitude = d.nearest := by
  rw [magnitude]
  split
  · rename_i h
    obtain hzero | hsmall := h
    · exact (nearest_of_zero hzero).symm
    · exact (nearest_of_small hsmall).symm
  · rename_i h
    split
    · rename_i hlarge
      exact (nearest_of_large (fun hzero => h (.inl hzero)) hlarge).symm
    · rfl

/-! The shortest decimal. -/

/-- A decimal that is a number of units of the last place of `places`. -/
theorem nearest_of_places (c p places : Nat) :
    (⟨c, (p : Int) - places⟩ : Decimal).nearest = Binary64.nearest (c * tenTo p) (tenTo places) := by
  refine Binary64.nearest_congr (tenTo_pos _) (tenTo_pos _) ?_
  rw [Nat.mul_assoc, Nat.mul_assoc, ← tenTo_add, ← tenTo_add]
  refine congrArg (c * tenTo ·) ?_
  dsimp only
  omega

theorem nearest_search {bits places value : Nat}
    (h : Binary64.nearest value (tenTo places) = bits) (p : Nat) :
    (search bits places value p).nearest = bits := by
  induction p with
  | zero =>
    have hexact := nearest_of_places value 0 places
    rw [tenTo_eq, Nat.pow_zero, Nat.mul_one, h] at hexact
    simpa [search] using hexact
  | succ p ih =>
    rw [search]
    split
    · rename_i c hc
      have hreads : readsBack bits places c (p + 1) = true := by
        simpa using List.find?_some hc
      rw [nearest_of_places]
      simpa [readsBack] using hreads
    · exact ih

/-- With so many places the value of a double is a whole number of units of the last place. -/
theorem units_mul_tenTo (bits : Nat) :
    Binary64.units bits * tenTo (exactPlaces bits) / one * one =
      Binary64.units bits * tenTo (exactPlaces bits) := by
  let g := Nat.gcd (Binary64.units bits) one
  have hg : g ∣ one := Nat.gcd_dvd_right _ _
  have hpower : one / g ∣ 2 ^ 1074 := Binary64.one_eq ▸ Nat.div_dvd_of_dvd hg
  obtain ⟨k, -, hk⟩ := (Nat.dvd_prime_pow Nat.prime_two).mp hpower
  have hplaces : exactPlaces bits = k := by
    show (one / g).log2 = k
    rw [hk, Nat.log2_two_pow]
  have hone : one = g * 2 ^ k := by rw [← hk, Nat.mul_div_cancel' hg]
  have hten : tenTo k = 2 ^ k * 5 ^ k := Nat.mul_pow 2 5 k
  refine Nat.div_mul_cancel ?_
  rw [hplaces, hten, hone]
  exact Nat.mul_dvd_mul (Nat.gcd_dvd_left _ _) (Nat.dvd_mul_right _ _)

/-- The shortest decimal reads back as the bits it stands for. -/
theorem nearest_shortest {bits : Nat} (h : bits < infinityBits) : (shortest bits).nearest = bits :=
  nearest_search (Binary64.nearest_of_units h (tenTo_pos _) (units_mul_tenTo bits)) _

/-! Decimals without an exponent. -/

theorem decimal?_digits {cs : List Char} (hne : cs ≠ []) (h : ∀ c ∈ cs, c.isDigit = true) :
    decimal? cs = some ⟨ofDigits cs, 0⟩ := by
  have htake : cs.takeWhile Char.isDigit = cs := List.takeWhile_eq_self_iff.mpr h
  have hdrop : cs.dropWhile Char.isDigit = [] := List.dropWhile_eq_nil_iff.mpr h
  simp [decimal?, htake, hdrop, hne, exponent?]

theorem decimal?_point {cs ds : List Char} (hne : ¬ (cs = [] ∧ ds = []))
    (hcs : ∀ c ∈ cs, c.isDigit = true) (hds : ∀ c ∈ ds, c.isDigit = true) :
    decimal? (cs ++ '.' :: ds) = some ⟨ofDigits (cs ++ ds), -(ds.length : Int)⟩ := by
  have htake : (cs ++ '.' :: ds).takeWhile Char.isDigit = cs := by
    rw [List.takeWhile_append_of_pos hcs, List.takeWhile_cons_of_neg (by decide), List.append_nil]
  have hdrop : (cs ++ '.' :: ds).dropWhile Char.isDigit = '.' :: ds := by
    rw [List.dropWhile_append_of_pos hcs, List.dropWhile_cons_of_neg (by decide)]
  have htake' : ds.takeWhile Char.isDigit = ds := List.takeWhile_eq_self_iff.mpr hds
  have hdrop' : ds.dropWhile Char.isDigit = [] := List.dropWhile_eq_nil_iff.mpr hds
  simp [decimal?, htake, hdrop, htake', hdrop', hne, exponent?]

theorem ofDigits_zeros (n : Nat) (cs : List Char) :
    ofDigits (List.replicate n '0' ++ cs) = ofDigits cs := by
  rw [ofDigits, ofDigits, Nat.ofDigitChars_append, Nat.ofDigitChars_replicate_zero, Nat.mul_zero]

/-- Digits with a point are read as the digits, so many places down. -/
theorem decimal?_withPoint {cs : List Char} (h : ∀ c ∈ cs, c.isDigit = true) (places : Nat) :
    decimal? (withPoint cs places) = some ⟨ofDigits cs, -(places : Int)⟩ := by
  let padded := List.replicate (places + 1 - cs.length) '0' ++ cs
  have hpadded : ∀ c ∈ padded, c.isDigit = true := by
    intro c hc
    obtain hc | hc := List.mem_append.mp hc
    · rw [List.eq_of_mem_replicate hc]
      decide
    · exact h c hc
  have hlength : places + 1 ≤ padded.length := by
    simp only [padded, List.length_append, List.length_replicate]
    omega
  have hdigits : ofDigits padded = ofDigits cs := ofDigits_zeros _ cs
  show decimal? (if places = 0 then padded
    else padded.take (padded.length - places) ++ '.' :: padded.drop (padded.length - places)) = _
  split
  · rename_i hzero
    have hne : padded ≠ [] := List.ne_nil_of_length_pos (by omega)
    rw [decimal?_digits hne hpadded, hdigits, hzero]
    rfl
  · have hne : padded.take (padded.length - places) ≠ [] := by
      refine List.ne_nil_of_length_pos ?_
      rw [List.length_take]
      omega
    rw [decimal?_point (fun hnil => hne hnil.1) (fun c hc => hpadded c (List.mem_of_mem_take hc))
      (fun c hc => hpadded c (List.mem_of_mem_drop hc)), List.take_append_drop, hdigits,
      List.length_drop, Nat.sub_sub_self (by omega)]

theorem ofDigits_shifted (n k : Nat) :
    ofDigits (Nat.toDigits 10 n ++ List.replicate k '0') = n * tenTo k := by
  rw [ofDigits, Nat.ofDigitChars_append, Nat.ofDigitChars_ten_toDigits,
    Nat.ofDigitChars_replicate_zero, Nat.mul_comm]
  rfl

theorem isDigit_of_mem_shifted {n k : Nat} :
    ∀ c ∈ Nat.toDigits 10 n ++ List.replicate k '0', c.isDigit = true := by
  intro c hc
  obtain hc | hc := List.mem_append.mp hc
  · exact Nat.isDigit_of_mem_toDigits (by decide) (by decide) hc
  · rw [List.eq_of_mem_replicate hc]
    decide

/-- The decimal that is read from a decimal's text has the same nearest double. -/
theorem exists_decimal?_positional (d : Decimal) :
    ∃ d', decimal? d.positional = some d' ∧ d'.nearest = d.nearest := by
  rw [positional]
  split
  · rename_i hzero
    exact ⟨⟨0, 0⟩, by decide, by rw [nearest_of_zero hzero, nearest_of_zero rfl]⟩
  · refine ⟨_, decimal?_withPoint isDigit_of_mem_shifted _, ?_⟩
    have hexponent : (-((-d.exponent).toNat : Int)).toNat = 0 := by omega
    have hexponent' : (- -((-d.exponent).toNat : Int)).toNat = (-d.exponent).toNat := by omega
    simp only [nearest, ofDigits_shifted, hexponent, hexponent', tenTo_eq, Nat.pow_zero,
      Nat.mul_one]

theorem isNumberChar_of_mem_withPoint {cs : List Char} (h : ∀ c ∈ cs, c.isDigit = true)
    (places : Nat) : ∀ c ∈ withPoint cs places, Token.isNumberChar c = true := by
  have hpadded : ∀ c ∈ List.replicate (places + 1 - cs.length) '0' ++ cs,
      Token.isNumberChar c = true := by
    intro c hc
    obtain hc | hc := List.mem_append.mp hc
    · rw [List.eq_of_mem_replicate hc]
      decide
    · exact Token.isNumberChar_of_isDigit (h c hc)
  intro c hc
  rw [withPoint] at hc
  split at hc
  · exact hpadded c hc
  · obtain hc | hc := List.mem_append.mp hc
    · exact hpadded c (List.mem_of_mem_take hc)
    · obtain rfl | hc := List.mem_cons.mp hc
      · decide
      · exact hpadded c (List.mem_of_mem_drop hc)

theorem isNumberChar_of_mem_positional (d : Decimal) :
    ∀ c ∈ d.positional, Token.isNumberChar c = true := by
  rw [positional]
  split
  · intro c hc
    rw [List.mem_singleton.mp hc]
    decide
  · exact isNumberChar_of_mem_withPoint isDigit_of_mem_shifted _

/-! Doubles. -/

theorem toLower_of_isNumberChar {c : Char} (h : Token.isNumberChar c = true) : c.toLower = c := by
  have hrange := Token.toNat_of_isNumberChar h
  have hval : c.toNat = c.val.toNat := rfl
  refine Char.toLower_eq_of_not_isUpper ?_
  simp only [Char.isUpper, ge_iff_le, UInt32.le_iff_toNat_le, decide_eq_true_iff]
  rintro ⟨hge, -⟩
  rw [show 'A'.val.toNat = 65 from rfl] at hge
  omega

theorem not_isWord {word : String} {cs : List Char}
    (hword : word.toList.any (!Token.isNumberChar ·) = true)
    (hcs : ∀ c ∈ cs, Token.isNumberChar c = true) : isWord word cs = false := by
  rw [Bool.eq_false_iff]
  intro h
  obtain ⟨a, ha, hletter⟩ := List.any_eq_true.mp hword
  rw [← eq_of_beq h] at ha
  obtain ⟨c, hc, rfl⟩ := List.mem_map.mp ha
  rw [toLower_of_isNumberChar (hcs c hc), hcs c hc] at hletter
  cases hletter

/-- The text of a number is read as the nearest double of its decimal. -/
theorem unsignedDouble?_of_decimal? {cs : List Char} (hcs : ∀ c ∈ cs, Token.isNumberChar c = true)
    {d : Decimal} (h : decimal? cs = some d) (negative : Bool) :
    unsignedDouble? negative cs = some (Binary64.ofMagnitude negative d.nearest) := by
  have hnan : isWord "nan" cs = false := not_isWord (by decide) hcs
  have hinf : isWord "inf" cs = false := not_isWord (by decide) hcs
  have hinfinity : isWord "infinity" cs = false := not_isWord (by decide) hcs
  simp [unsignedDouble?, hnan, hinf, hinfinity, h, magnitude_eq]

theorem double?_ofList {cs : List Char} (hcs : ∀ c ∈ cs, Token.isNumberChar c = true) :
    double? (String.ofList cs) = unsignedDouble? false cs ∧
      double? (String.ofList ('-' :: cs)) = unsignedDouble? true cs := by
  refine ⟨?_, by simp [double?]⟩
  rw [double?, String.toList_ofList]
  split
  · exact absurd (hcs '-' (by simp)) (by decide)
  · exact absurd (hcs '+' (by simp)) (by decide)
  · rfl

/-- The text of a finite double is a decimal whose nearest double it is, after its sign. -/
theorem exists_text {x : Float} (h : Binary64.isFinite x = true) :
    ∃ d : Decimal, d.nearest = Binary64.magnitudeBits x ∧ text x =
      String.ofList (if Binary64.isNegative x then '-' :: d.positional else d.positional) := by
  have hbits : Binary64.magnitudeBits x < infinityBits := by simpa [Binary64.isFinite] using h
  have htext : text x = String.ofList (if Binary64.isNegative x
      then '-' :: if Binary64.magnitudeBits x = 0 then ['0']
        else (shortest (Binary64.magnitudeBits x)).positional
      else if Binary64.magnitudeBits x = 0 then ['0']
        else (shortest (Binary64.magnitudeBits x)).positional) := by
    unfold text signedText
    rw [if_neg (ne_true_of_eq_false (Binary64.isNaN_of_isFinite h))]
    simp only [h, if_true]
  by_cases hzero : Binary64.magnitudeBits x = 0
  · exact ⟨⟨0, 0⟩, by rw [nearest_of_zero rfl, hzero], by rw [htext, if_pos hzero]; rfl⟩
  · exact ⟨shortest (Binary64.magnitudeBits x), nearest_shortest hbits, by rw [htext, if_neg hzero]⟩

/-- Nothing but digits, points and minus signs. -/
def IsNumeric (text : String) : Prop :=
  ∀ c ∈ text.toList, Token.isNumberChar c = true ∨ c = '-'

theorem IsNumeric.ne {text word : String} (h : IsNumeric text)
    (hletter : word.toList.any (fun c => !Token.isNumberChar c && c != '-') = true) :
    text ≠ word := by
  rintro rfl
  obtain ⟨c, hc, hboth⟩ := List.any_eq_true.mp hletter
  obtain hnumber | hminus := h c hc
  · simp [hnumber] at hboth
  · simp [hminus] at hboth

theorem isNumeric_text {x : Float} (h : Binary64.isFinite x = true) : IsNumeric (text x) := by
  obtain ⟨d, -, htext⟩ := exists_text h
  intro c hc
  rw [htext, String.toList_ofList] at hc
  split at hc
  · obtain rfl | hc := List.mem_cons.mp hc
    · exact .inr rfl
    · exact .inl (isNumberChar_of_mem_positional d c hc)
  · exact .inl (isNumberChar_of_mem_positional d c hc)

theorem text_of_not_isFinite {x : Float} (h : Binary64.isFinite x = false) :
    text x = "NaN" ∨ text x = "inf" ∨ text x = "-inf" := by
  unfold text signedText
  split
  · exact .inl rfl
  · rw [if_neg (by simp [h])]
    split
    · exact .inr (.inr (by decide))
    · exact .inr (.inl (by decide))

/-- No word with a letter in it is the text of a double, apart from those for no number and for the
two infinities. -/
theorem text_ne {word : String}
    (hletter : word.toList.any (fun c => !Token.isNumberChar c && c != '-') = true)
    (hspecial : word ≠ "NaN" ∧ word ≠ "inf" ∧ word ≠ "-inf") (x : Float) : text x ≠ word := by
  cases h : Binary64.isFinite x with
  | true => exact (isNumeric_text h).ne hletter
  | false =>
    rintro rfl
    obtain ⟨hnan, hinf, hminus⟩ := hspecial
    exact (text_of_not_isFinite h).elim hnan fun h => h.elim hinf hminus

/-- The text of a finite double is read as the double. -/
theorem double?_text {x : Float} (h : Binary64.isFinite x = true) : double? (text x) = some x := by
  obtain ⟨d, hnearest, htext⟩ := exists_text h
  obtain ⟨d', hd', hsame⟩ := exists_decimal?_positional d
  have hchars := isNumberChar_of_mem_positional d
  obtain ⟨hplain, hsigned⟩ := double?_ofList hchars
  have hself := Binary64.ofMagnitude_magnitudeBits h
  rw [htext]
  cases hneg : Binary64.isNegative x with
  | true =>
    rw [hneg] at hself
    rw [if_pos rfl, hsigned, unsignedDouble?_of_decimal? hchars hd', hsame, hnearest, hself]
  | false =>
    rw [hneg] at hself
    rw [if_neg (by decide), hplain, unsignedDouble?_of_decimal? hchars hd', hsame, hnearest, hself]

end Decimal
end GridRules
