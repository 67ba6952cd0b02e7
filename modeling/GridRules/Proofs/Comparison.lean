import GridRules.Proofs.Infix
import GridRules.Proofs.Margins

/-! Comparisons of unsigned variables. Where one side is declared unsigned and both are whole
numbers of 64 bits, it is the numbers themselves that are compared, however large they are. -/
namespace GridRules

namespace Evaluate
variable {s : Scope} {name : String}

theorem classify_of_type {type : ValueType} {raw : Value} (h : s name = some ⟨type, raw⟩) :
    classify s ⟨.identifier, name⟩ = type := by
  simp [classify, Scope.typeOf, h]

theorem asWord?_unsigned {u : UInt64} (h : s name = some ⟨.uint64, .uint64 u⟩) :
    asWord? s ⟨.identifier, name⟩ = some u := by
  have hvalue : s.value? name = some (.uint64 u) := by
    simp [Scope.value?, h, Value.coerce, ValueType.read?, Reading.uint64]
  simp [asWord?, hvalue]

end Evaluate

namespace Expression

/-- The six ways to compare two numbers. -/
inductive Relation where
  | eq | ne | lt | le | gt | ge
  deriving DecidableEq, Repr

namespace Relation

def op : Relation → BinaryOp
  | .eq => .eq
  | .ne => .ne
  | .lt => .lt
  | .le => .le
  | .gt => .gt
  | .ge => .ge

/-- What the comparison of two whole numbers comes to. -/
def holds (m n : Nat) : Relation → Bool
  | .eq => m = n
  | .ne => m ≠ n
  | .lt => m < n
  | .le => m ≤ n
  | .gt => n < m
  | .ge => n ≤ m

theorem kind_token (rel : Relation) : rel.op.token.kind = .comparison := by
  cases rel <;> rfl

/-- Words are compared by the numbers that they stand for. -/
theorem compare_words (rel : Relation) (a b : UInt64) :
    Evaluate.compare rel.op.token.lexeme a b = .ok (rel.holds a.toNat b.toNat) := by
  cases rel <;>
    simp [Evaluate.compare, op, BinaryOp.token, holds, UInt64.lt_iff_toNat_lt,
      UInt64.le_iff_toNat_le, ← UInt64.toNat_inj, bne, beq_eq_decide]

/-- Two numbers are compared alike with a third one if they stand on the same side of it. -/
theorem holds_eq_iff {m n n' : Nat} :
    (∀ rel : Relation, rel.holds m n = rel.holds m n') ↔ compare m n = compare m n' := by
  refine ⟨fun h => ?_, fun h rel => ?_⟩
  · have hlt := h .lt
    have heq := h .eq
    simp only [holds, decide_eq_decide] at hlt heq
    obtain hm | hm | hm := Nat.lt_trichotomy m n
    · rw [Nat.compare_eq_lt.mpr hm, Nat.compare_eq_lt.mpr (hlt.mp hm)]
    · rw [Nat.compare_eq_eq.mpr hm, Nat.compare_eq_eq.mpr (heq.mp hm)]
    · have hm' : n' < m := by omega
      rw [Nat.compare_eq_gt.mpr hm, Nat.compare_eq_gt.mpr hm']
  · have hlt : m < n ↔ m < n' := by rw [← Nat.compare_eq_lt, ← Nat.compare_eq_lt, h]
    have heq : m = n ↔ m = n' := by rw [← Nat.compare_eq_eq, ← Nat.compare_eq_eq, h]
    cases rel <;> simp only [holds, decide_eq_decide] <;> omega

end Relation

/-- An operand that stands for a whole number: a variable which is declared with the type of its
value, or digits that no variable has for its name. -/
inductive Denotes (s : Scope) : Token → Nat → Prop
  | uint64 {x : String} {v : UInt64} (hx : (⟨.identifier, x⟩ : Token).Shaped)
      (h : s x = some ⟨.uint64, .uint64 v⟩) : Denotes s ⟨.identifier, x⟩ v.toNat
  | int {x : String} {v : Int64} (hx : (⟨.identifier, x⟩ : Token).Shaped)
      (h : s x = some ⟨.int, .int v⟩) (hv : 0 ≤ v.toInt) :
      Denotes s ⟨.identifier, x⟩ v.toInt.toNat
  | bool {x : String} {v : Bool} (hx : (⟨.identifier, x⟩ : Token).Shaped)
      (h : s x = some ⟨.bool, .bool v⟩) : Denotes s ⟨.identifier, x⟩ v.toNat
  | digits {cs : List Char} (hne : cs ≠ []) (hcs : ∀ c ∈ cs, c.isDigit = true)
      (hlt : Decimal.ofDigits cs < UInt64.size) (hfree : s.isBound (String.ofList cs) = false) :
      Denotes s ⟨.numeral, String.ofList cs⟩ (Decimal.ofDigits cs)

/-- A variable that is declared unsigned. -/
def IsUnsigned (s : Scope) (t : Token) : Prop :=
  ∃ x v, t = ⟨.identifier, x⟩ ∧ s x = some ⟨.uint64, .uint64 v⟩

/-! Digits as a token. -/

theorem isNumeral_of_digits {cs : List Char} (hne : cs ≠ []) (hcs : ∀ c ∈ cs, c.isDigit = true) :
    Token.IsNumeral cs where
  chars c hc := .inl (hcs c hc)
  digit := by
    obtain ⟨c, hc⟩ := List.exists_mem_of_ne_nil cs hne
    exact ⟨c, hc, hcs c hc⟩
  points := by
    have hnone : '.' ∉ cs := fun hmem => absurd (hcs '.' hmem) (by decide)
    rw [List.count_eq_zero_of_not_mem hnone]
    exact Nat.zero_le 1

theorem unsigned?_digits {cs : List Char} (hne : cs ≠ []) (hcs : ∀ c ∈ cs, c.isDigit = true) :
    Decimal.unsigned? cs = some (Decimal.ofDigits cs) := by
  unfold Decimal.unsigned?
  split
  · exact absurd (hcs '+' (by simp)) (by decide)
  · simpa [Decimal.natural?, hne] using hcs

theorem unsigned?_of_lt {n : Nat} (h : n < UInt64.size) :
    Word.unsigned? n = some (UInt64.ofNat n) := by
  have hword := Word.unsigned?_toNat (UInt64.ofNat n)
  rwa [UInt64.toNat_ofNat_of_lt' h] at hword

theorem uint64?_of_unsigned? {cs : List Char} {n : Nat} (h : Decimal.unsigned? cs = some n)
    (hlt : n < UInt64.size) : Decimal.uint64? (String.ofList cs) = some (UInt64.ofNat n) := by
  rw [Decimal.uint64?, String.toList_ofList, h, Option.bind_eq_bind, Option.bind_some,
    unsigned?_of_lt hlt]

theorem value?_of_not_isBound {s : Scope} {x : String} (h : s.isBound x = false) :
    s.value? x = none := by
  have hnone : s x = none := by simpa [Scope.isBound] using h
  simp [Scope.value?, hnone]

namespace Denotes
variable {s : Scope} {t : Token} {n : Nat}

theorem shaped (h : Denotes s t n) : t.Shaped := by
  cases h with
  | uint64 hx _ => exact hx
  | int hx _ _ => exact hx
  | bool hx _ => exact hx
  | digits hne hcs _ _ => exact ⟨_, isNumeral_of_digits hne hcs, .inl rfl⟩

theorem isOperand (h : Denotes s t n) : t.kind.isOperand = true := by
  cases h <;> rfl

theorem classify_ne (h : Denotes s t n) :
    Evaluate.classify s t ≠ .string ∧ Evaluate.classify s t ≠ .array := by
  cases h with
  | uint64 _ h => simp [Evaluate.classify_of_type h]
  | int _ h _ => simp [Evaluate.classify_of_type h]
  | bool _ h => simp [Evaluate.classify_of_type h]
  | digits => exact ⟨nofun, nofun⟩

/-- The operand is read as the very number that it stands for. -/
theorem asWord? (h : Denotes s t n) : ∃ w, Evaluate.asWord? s t = some w ∧ w.toNat = n := by
  cases h with
  | @uint64 x v _ h => exact ⟨v, Evaluate.asWord?_unsigned h, rfl⟩
  | @int x v _ h hv =>
    have hvalue : s.value? x = some (.int v) := by
      simp [Scope.value?, h, Value.coerce, ValueType.read?, Reading.int]
    have hlt : v.toInt.toNat < UInt64.size := by
      have hle := v.toInt_lt
      have hsize : UInt64.size = 18446744073709551616 := rfl
      omega
    have hword : Word.unsigned? v.toInt = some (UInt64.ofNat v.toInt.toNat) := by
      rw [← unsigned?_of_lt hlt, Int.toNat_of_nonneg hv]
    exact ⟨_, by simp only [Evaluate.asWord?, hvalue, hword], UInt64.toNat_ofNat_of_lt' hlt⟩
  | @bool x v _ h =>
    have hvalue : s.value? x = some (.bool v) := by
      simp [Scope.value?, h, Value.coerce, ValueType.read?, Reading.bool]
    refine ⟨if v then 1 else 0, by simp [Evaluate.asWord?, hvalue], ?_⟩
    cases v <;> rfl
  | @digits cs hne hcs hlt hfree =>
    have htrim : Text.trimmed (String.ofList cs) = String.ofList cs := by
      refine Text.trimmed_eq_self fun c hc => ?_
      rw [String.toList_ofList] at hc
      exact Token.not_isBlank_of_isNumberChar (Token.isNumberChar_of_isDigit (hcs c hc))
    have hparse := uint64?_of_unsigned? (unsigned?_digits hne hcs) hlt
    have hword : Evaluate.asWord? s ⟨.numeral, String.ofList cs⟩ =
        some (UInt64.ofNat (Decimal.ofDigits cs)) := by
      simp only [Evaluate.asWord?, value?_of_not_isBound hfree, htrim, hparse]
    exact ⟨_, hword, UInt64.toNat_ofNat_of_lt' hlt⟩

end Denotes

variable {s : Scope} {l r : Token} {m n : Nat}

theorem classify_of_isUnsigned {t : Token} (h : IsUnsigned s t) :
    Evaluate.classify s t = .uint64 := by
  obtain ⟨x, v, rfl, hx⟩ := h
  exact Evaluate.classify_of_type hx

/-- Where one operand is unsigned and both are words, it is the words that are compared. -/
theorem binaryOp_of_words {a b : UInt64} (ha : Evaluate.asWord? s l = some a)
    (hb : Evaluate.asWord? s r = some b)
    (hl : Evaluate.classify s l ≠ .string ∧ Evaluate.classify s l ≠ .array)
    (hr : Evaluate.classify s r ≠ .string ∧ Evaluate.classify s r ≠ .array)
    (hu : Evaluate.classify s l = .uint64 ∨ Evaluate.classify s r = .uint64) (rel : Relation) :
    Evaluate.binaryOp s rel.op.token l r = .ok (.ofBool (rel.holds a.toNat b.toNat)) := by
  have hcompare : Evaluate.comparisonOp s rel.op.token.lexeme l r =
      .ok (rel.holds a.toNat b.toNat) := by
    simp [Evaluate.comparisonOp, ha, hb, hu, rel.compare_words]
  simp [Evaluate.binaryOp, hl, hr, rel.kind_token, hcompare]

/-- The comparison gives the truth value of the relation between the two numbers. -/
theorem binaryOp_of_denotes (hl : Denotes s l m) (hr : Denotes s r n)
    (hu : IsUnsigned s l ∨ IsUnsigned s r) (rel : Relation) :
    Evaluate.binaryOp s rel.op.token l r = .ok (.ofBool (rel.holds m n)) := by
  obtain ⟨a, ha, rfl⟩ := hl.asWord?
  obtain ⟨b, hb, rfl⟩ := hr.asWord?
  exact binaryOp_of_words ha hb hl.classify_ne hr.classify_ne
    (hu.imp classify_of_isUnsigned classify_of_isUnsigned) rel

/-- Whole numbers of which one is an unsigned variable are compared exactly, over the whole range
of 64 bits, and the text of the comparison stands for the truth value. -/
theorem value_between_of_denotes (hl : Denotes s l m) (hr : Denotes s r n)
    (hu : IsUnsigned s l ∨ IsUnsigned s r) (rel : Relation)
    (hfree : s.isBound (Token.ofBool (rel.holds m n)).lexeme = false) :
    value (rel.op.between l.lexeme r.lexeme) s = .ok (if rel.holds m n then 1 else 0) := by
  have hcompile := rel.op.compile_between hl.shaped hr.shaped hl.isOperand hr.isOperand
  have hvalue := evaluate_between_of_ofBool (l := ⟨l, hl.isOperand⟩) (r := ⟨r, hr.isOperand⟩)
    (binaryOp_of_denotes hl hr hu rel) hfree
  rw [value_of_compile hcompile, hvalue, Outcome.mapError_ok]

/-- Two numbers that are one as doubles, and a leading zero. -/
theorem value_between_of_denotes_of_large :
    let s := (Variables.bindConstant Table.empty "U" (.uint64 18446744073709551615)).scope ()
    let digits := "018446744073709551614"
    Relation.gt.op.between "U" digits = "U > 018446744073709551614" ∧
      Denotes s ⟨.identifier, "U"⟩ 18446744073709551615 ∧
      Denotes s ⟨.numeral, digits⟩ 18446744073709551614 ∧
      (IsUnsigned s ⟨.identifier, "U"⟩ ∨ IsUnsigned s ⟨.numeral, digits⟩) ∧
      s.isBound (Token.ofBool (Relation.gt.holds 18446744073709551615
        18446744073709551614)).lexeme = false ∧
      value (Relation.gt.op.between "U" digits) s = .ok 1 := by
  intro s digits
  have hname : (⟨.identifier, "U"⟩ : Token).Shaped := ⟨'U', [], ⟨.inl rfl, by simp⟩, rfl⟩
  have hl : Denotes s ⟨.identifier, "U"⟩ (18446744073709551615 : UInt64).toNat :=
    .uint64 hname rfl
  have hdigits : digits.toList.all Char.isDigit = true := by decide
  have hnumber : Decimal.ofDigits digits.toList = 18446744073709551614 := by decide
  have htext : String.ofList digits.toList = digits := String.ofList_toList
  have hr : Denotes s ⟨.numeral, String.ofList digits.toList⟩ (Decimal.ofDigits digits.toList) :=
    .digits (by decide) (List.all_eq_true.mp hdigits) (by decide) (by decide)
  rw [htext, hnumber] at hr
  have hu : IsUnsigned s ⟨.identifier, "U"⟩ := ⟨"U", _, rfl, rfl⟩
  exact ⟨by decide, hl, hr, .inl hu, rfl, value_between_of_denotes hl hr (.inl hu) .gt rfl⟩

/-- The comparison is not told by its number if a variable has the numeral of truth for a name. -/
theorem not_value_between_of_bound :
    let vars := Variables.bindConstant (Variables.bindConstant Table.empty "U" (.uint64 5))
      "1" (.double 0)
    let s := vars.scope ()
    Denotes s ⟨.identifier, "U"⟩ 5 ∧ IsUnsigned s ⟨.identifier, "U"⟩ ∧
      Relation.eq.op.between "U" "U" = "U == U" ∧ Relation.eq.holds 5 5 = true ∧
      value (Relation.eq.op.between "U" "U") s = .ok 0 := by
  intro vars s
  have hname : (⟨.identifier, "U"⟩ : Token).Shaped := ⟨'U', [], ⟨.inl rfl, by simp⟩, rfl⟩
  have hfive : Denotes s ⟨.identifier, "U"⟩ (5 : UInt64).toNat := .uint64 hname rfl
  exact ⟨hfive, ⟨"U", _, rfl, rfl⟩, by decide, by decide, by decide +kernel⟩

end Expression
end GridRules
