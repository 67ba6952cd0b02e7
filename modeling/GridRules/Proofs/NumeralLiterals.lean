import GridRules.Proofs.Computed
import GridRules.Proofs.Rejoin

/-! Numerals as literals. Every numeral that the scanner lets through is read as the nearest double
of the number it writes, and digits alone are read as the word they write if there is one. -/
namespace GridRules

namespace Token

/-- Digits, and behind a point more digits. Either may be missing, but not both. -/
structure Parts (run whole fraction : List Char) : Prop where
  before : ∀ c ∈ whole, c.isDigit = true
  behind : ∀ c ∈ fraction, c.isDigit = true
  digit : ¬ (whole = [] ∧ fraction = [])
  joined : run = whole ++ '.' :: fraction ∨ run = whole ∧ fraction = []

theorem IsNumeral.exists_parts {run : List Char} (h : IsNumeral run) :
    ∃ whole fraction, Parts run whole fraction := by
  have hdigit : ∀ c ∈ run, c ≠ '.' → c.isDigit = true := fun c hc hne =>
    (h.chars c hc).resolve_right hne
  obtain ⟨d, hd, hdd⟩ := h.digit
  -- The first point is the only one.
  by_cases hpoint : '.' ∈ run
  · obtain ⟨whole, fraction, rfl⟩ := List.append_of_mem hpoint
    have hpoints := h.points
    rw [List.count_append, List.count_cons_self] at hpoints
    have hwhole : '.' ∉ whole := List.count_eq_zero.mp (by omega)
    have hfraction : '.' ∉ fraction := List.count_eq_zero.mp (by omega)
    refine ⟨whole, fraction, fun c hc => ?_, fun c hc => ?_, ?_, .inl rfl⟩
    · exact hdigit c (List.mem_append_left _ hc) fun heq => hwhole (heq ▸ hc)
    · exact hdigit c (List.mem_append_right _ (List.mem_cons_of_mem _ hc))
        fun heq => hfraction (heq ▸ hc)
    · rintro ⟨rfl, rfl⟩
      cases List.mem_singleton.mp hd
      cases hdd
  · refine ⟨run, [], fun c hc => hdigit c hc fun heq => hpoint (heq ▸ hc), by simp, ?_,
      .inr ⟨rfl, rfl⟩⟩
    rintro ⟨rfl, -⟩
    cases hd

end Token

namespace Decimal
variable {run whole fraction : List Char}

/-- All digits as one number, a tenth of it for each digit behind the point. -/
def ofParts (whole fraction : List Char) : Decimal :=
  ⟨ofDigits (whole ++ fraction), -(fraction.length : Int)⟩

theorem decimal?_parts (h : Token.Parts run whole fraction) :
    decimal? run = some (ofParts whole fraction) := by
  obtain rfl | ⟨rfl, rfl⟩ := h.joined
  · exact decimal?_point h.digit h.before h.behind
  · rw [decimal?_digits (fun hnil => h.digit ⟨hnil, rfl⟩) h.before, ofParts, List.append_nil]
    rfl

/-- The characters of a number behind its sign. -/
def signed (negative : Bool) (run : List Char) : List Char := if negative then '-' :: run else run

theorem double?_signed (hrun : Token.IsNumeral run) (h : Token.Parts run whole fraction)
    (negative : Bool) : Literal.double? (String.ofList (signed negative run)) =
      some (Binary64.ofMagnitude negative (ofParts whole fraction).nearest) := by
  have hchars : ∀ c ∈ run, Token.isNumberChar c = true := (Token.isNumeral_iff.mp hrun).1
  have hnumeric : IsNumeric (String.ofList (signed negative run)) := by
    intro c hc
    rw [String.toList_ofList] at hc
    cases negative with
    | true => exact (List.mem_cons.mp hc).symm.imp_left (hchars c)
    | false => exact .inl (hchars c hc)
  rw [hnumeric.literal_eq, ← unsignedDouble?_of_decimal? hchars (decimal?_parts h) negative]
  cases negative with
  | true => exact (double?_ofList hchars).2
  | false => exact (double?_ofList hchars).1

end Decimal

namespace Token

/-- A text that is read as a number: as the nearest double of what it writes, where nothing has it
as a name, and as a word if it is digits that write one. -/
structure IsLiteral (text : String) : Prop where
  double : ∃ negative run whole fraction, text = String.ofList (Decimal.signed negative run) ∧
    Parts run whole fraction ∧ ∃ x,
      x = Binary64.ofMagnitude negative (Decimal.ofParts whole fraction).nearest ∧
      Literal.double? text = some x ∧
      ∀ s : Scope, s.isBound text = false → s.read? .double text = some x
  word (hdigits : ∀ c ∈ text.toList, c.isDigit = true)
    (hlt : Decimal.ofDigits text.toList < UInt64.size) :
    ∃ n, Literal.uint64? text = some n ∧ n.toNat = Decimal.ofDigits text.toList

theorem uint64?_digits {text : String} (hne : text.toList ≠ [])
    (hdigits : ∀ c ∈ text.toList, c.isDigit = true)
    (hlt : Decimal.ofDigits text.toList < UInt64.size) :
    Literal.uint64? text = some (UInt64.ofNat (Decimal.ofDigits text.toList)) := by
  have hnumeric : Decimal.IsNumeric text := fun c hc => .inl (isNumberChar_of_isDigit (hdigits c hc))
  have hword := Expression.uint64?_of_unsigned? (Expression.unsigned?_digits hne hdigits) hlt
  rw [String.ofList_toList] at hword
  exact hnumeric.literal_uint64 hword

theorem IsNumeral.isLiteral {run : List Char} (h : IsNumeral run) (negative : Bool) :
    IsLiteral (String.ofList (Decimal.signed negative run)) where
  double := by
    obtain ⟨whole, fraction, hparts⟩ := h.exists_parts
    have hdouble := Decimal.double?_signed h hparts negative
    refine ⟨negative, run, whole, fraction, rfl, hparts, _, rfl, hdouble, fun s hfree => ?_⟩
    rw [Scope.read?, hfree, ← hdouble]
    simp only [Bool.false_eq_true, if_false, Reading.double]
  word hdigits hlt := by
    have hne : (String.ofList (Decimal.signed negative run)).toList ≠ [] := by
      obtain ⟨c, hc, -⟩ := h.digit
      rw [String.toList_ofList]
      cases negative with
      | true => exact List.cons_ne_nil _ _
      | false => exact List.ne_nil_of_mem hc
    exact ⟨_, uint64?_digits hne hdigits hlt, UInt64.toNat_ofNat_of_lt' hlt⟩

theorem Shaped.isLiteral {t : Token} (h : t.Shaped) (hkind : t.kind = .numeral) :
    IsLiteral t.lexeme := by
  simp only [Shaped, hkind] at h
  obtain ⟨run, hrun, hlexeme | hlexeme⟩ := h
  · exact hlexeme ▸ hrun.isLiteral false
  · exact hlexeme ▸ hrun.isLiteral true

/-- Every numeral of a text that is let through is read as the number it writes. -/
theorem isLiteral_of_tokenize {text : String} {ts : List Token} (h : tokenize text = .ok ts)
    {t : Token} (ht : t ∈ ts) (hkind : t.kind = .numeral) : IsLiteral t.lexeme :=
  ((shaped_of_scan h).1 t ht).isLiteral hkind

/-- Numerals with a sign, without a digit on one side of the point, and of the largest word. -/
theorem isLiteral_of_tokenize_signed :
    let ts : List Token := [⟨.numeral, "-.5"⟩, ⟨.arithmetic, "-"⟩, ⟨.numeral, "5."⟩,
      ⟨.comparison, "<"⟩, ⟨.numeral, "18446744073709551615"⟩]
    tokenize "-.5-5.<18446744073709551615" = .ok ts ∧
      (∀ t ∈ ts, t.kind = .numeral → IsLiteral t.lexeme) ∧
      Literal.double? "-.5" = some (-0.5) ∧ Literal.double? "5." = some 5 ∧
      Literal.uint64? "18446744073709551615" = some 18446744073709551615 := by
  intro ts
  have htokenize : tokenize "-.5-5.<18446744073709551615" = .ok ts := by decide +kernel
  exact ⟨htokenize, fun t ht hkind => isLiteral_of_tokenize htokenize ht hkind,
    by decide +kernel, by decide +kernel, by decide +kernel⟩

end Token
end GridRules
