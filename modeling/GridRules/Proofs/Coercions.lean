import GridRules.Proofs.Computed
import GridRules.Proofs.TagConditions

/-! Coercion. Whole numbers and truth values survive it, whole numbers of either kind are exchanged
where they fit, and what is coerced to a type is of that type and stays as it is. -/
namespace GridRules

namespace Word

theorem signed?_eq_some_iff {i : Int} {n : Int64} : signed? i = some n ↔ n.toInt = i := by
  constructor
  · intro h
    rw [signed?] at h
    split at h
    · rename_i hi
      cases h
      exact hi
    · cases h
  · rintro rfl
    exact signed?_toInt n

theorem isSome_unsigned?_toInt (n : Int64) : (unsigned? n.toInt).isSome ↔ 0 ≤ n := by
  have hlt : n.toInt < UInt64.size := Int.lt_trans n.toInt_lt (by decide)
  have hzero : 0 ≤ n ↔ 0 ≤ n.toInt := Int64.le_iff_toInt_le
  rw [hzero, unsigned?]
  split
  · rename_i hn
    simp [hn.1]
  · rename_i hn
    simpa using fun h => hn ⟨h, hlt⟩

theorem isSome_signed?_toNat (m : UInt64) :
    (signed? m.toNat).isSome ↔ (m.toNat : Int) ≤ Int64.maxValue.toInt := by
  rw [Option.isSome_iff_exists]
  constructor
  · rintro ⟨n, hn⟩
    rw [← signed?_eq_some_iff.mp hn]
    exact Int64.toInt_le n
  · intro hle
    have hlt : (m.toNat : Int) < 2 ^ 63 := Int.lt_of_le_of_lt hle (by decide)
    exact ⟨Int64.ofInt m.toNat, signed?_eq_some_iff.mpr
      (Int64.toInt_ofInt_of_le (by omega) hlt)⟩

end Word

namespace Decimal

theorem isDigit_of_mem_repr {n : Nat} {c : Char} (h : c ∈ n.repr.toList) : c.isDigit = true :=
  Nat.isDigit_of_mem_toDigits (by decide) (by decide) (Nat.toList_repr ▸ h)

theorem isNumeric_repr (n : Nat) : IsNumeric n.repr :=
  fun _ hc => .inl (Token.isNumberChar_of_isDigit (isDigit_of_mem_repr hc))

theorem natural?_repr (n : Nat) : natural? n.repr.toList = some n := by
  rw [Nat.toList_repr, natural?_toDigits]

theorem unsigned?_repr (n : Nat) : unsigned? n.repr.toList = some n := by
  obtain ⟨hne, hdigits, hvalue⟩ := natural?_eq_some (natural?_repr n)
  rw [Expression.unsigned?_digits hne hdigits, hvalue]

theorem toList_integerText_of_neg {i : Int} (h : i < 0) :
    (integerText i).toList = '-' :: i.natAbs.repr.toList := by
  rw [integerText, if_pos h, String.toList_append]
  rfl

theorem isNumeric_integerText (i : Int) : IsNumeric (integerText i) := by
  by_cases hneg : i < 0
  · intro c hc
    rw [toList_integerText_of_neg hneg] at hc
    obtain rfl | hc := List.mem_cons.mp hc
    · exact .inr rfl
    · exact isNumeric_repr i.natAbs c hc
  · rw [integerText, if_neg hneg]
    exact isNumeric_repr i.natAbs

theorem signed?_integerText (i : Int) : signed? (integerText i).toList = some i := by
  by_cases hneg : i < 0
  · have hvalue : -(i.natAbs : Int) = i := by omega
    rw [toList_integerText_of_neg hneg, signed?, natural?_repr]
    exact congrArg some hvalue
  · have hvalue : (i.natAbs : Int) = i := by omega
    have hhead : ∀ cs, i.natAbs.repr.toList ≠ '-' :: cs := fun cs hcs => by
      cases isDigit_of_mem_repr (hcs ▸ List.mem_cons_self)
    rw [integerText, if_neg hneg, signed?, unsigned?_repr]
    · exact congrArg some hvalue
    · exact hhead

end Decimal

namespace Literal

theorem int64?_integerText (n : Int64) : int64? (Decimal.integerText n.toInt) = some n := by
  have hwhole : Decimal.int64? (Decimal.integerText n.toInt) = some n := by
    rw [Decimal.int64?, Decimal.signed?_integerText, Option.bind_eq_bind, Option.bind_some,
      Word.signed?_toInt]
  exact (Decimal.isNumeric_integerText n.toInt).literal_int64 hwhole

theorem uint64?_repr (m : UInt64) : uint64? m.toNat.repr = some m := by
  have hwhole : Decimal.uint64? m.toNat.repr = some m := by
    rw [Decimal.uint64?, Decimal.unsigned?_repr, Option.bind_eq_bind, Option.bind_some,
      Word.unsigned?_toNat]
  exact (Decimal.isNumeric_repr m.toNat).literal_uint64 hwhole

end Literal

namespace Value

/-- The value comes back from the type. -/
def Survives (v : Value) (type : ValueType) : Prop :=
  ∃ w, v.coerce type = some w ∧ w.coerce v.type = some v

/-- What the value becomes as the type is of that type, and the type keeps it. -/
def Settles (v : Value) (type : ValueType) : Prop :=
  ∀ w, v.coerce type = some w → w.type = type ∧ w.coerce type = some w

theorem settles (v : Value) {type : ValueType} (h : type ≠ .unknown) : v.Settles type := by
  intro w hw
  have htype : w.type = type := (type_coerce hw).resolve_left h
  refine ⟨htype, ?_⟩
  subst htype
  cases w <;> rfl

/-- A text is read alike as it stands and as the only element of an array. -/
theorem coerce_text_int (t : String) :
    (string t).coerce .int = (Literal.int64? t).map int ∧
      (array [t]).coerce .int = (Literal.int64? t).map int := by
  simp only [coerce, ValueType.read?, Reading.int, Reading.single?, Option.bind_some, and_self]

theorem coerce_text_uint64 (t : String) :
    (string t).coerce .uint64 = (Literal.uint64? t).map uint64 ∧
      (array [t]).coerce .uint64 = (Literal.uint64? t).map uint64 := by
  simp only [coerce, ValueType.read?, Reading.uint64, Reading.single?, Option.bind_some, and_self]

theorem int_survives (n : Int64) : (int n).Survives .string ∧ (int n).Survives .array := by
  have htext := coerce_text_int (Decimal.integerText n.toInt)
  rw [Literal.int64?_integerText, Option.map_some] at htext
  exact ⟨⟨_, rfl, htext.1⟩, ⟨_, rfl, htext.2⟩⟩

theorem uint64_survives (m : UInt64) :
    (uint64 m).Survives .string ∧ (uint64 m).Survives .array := by
  have htext := coerce_text_uint64 m.toNat.repr
  rw [Literal.uint64?_repr, Option.map_some] at htext
  exact ⟨⟨_, rfl, htext.1⟩, ⟨_, rfl, htext.2⟩⟩

theorem bool_survives (b : Bool) : (bool b).Survives .string := by
  refine ⟨.string (bool b).text, rfl, ?_⟩
  cases b <;> decide +kernel

theorem coerce_int_uint64 {n : Int64} {m : UInt64} :
    (int n).coerce .uint64 = some (uint64 m) ↔ (m.toNat : Int) = n.toInt := by
  have hcoerce : (int n).coerce .uint64 = (Word.unsigned? n.toInt).map uint64 := rfl
  rw [hcoerce, ← Word.unsigned?_eq_some_iff]
  simp

theorem coerce_uint64_int {n : Int64} {m : UInt64} :
    (uint64 m).coerce .int = some (int n) ↔ (m.toNat : Int) = n.toInt := by
  have hcoerce : (uint64 m).coerce .int = (Word.signed? m.toNat).map int := rfl
  rw [hcoerce, eq_comm (a := (m.toNat : Int)), ← Word.signed?_eq_some_iff]
  simp

/-- A whole number with a sign and one without are exchanged exactly if they are the same. -/
structure Exchange (n : Int64) (m : UInt64) : Prop where
  int_isSome : ((int n).coerce .uint64).isSome ↔ 0 ≤ n
  uint64_isSome : ((uint64 m).coerce .int).isSome ↔ (m.toNat : Int) ≤ Int64.maxValue.toInt
  int_survives (h : 0 ≤ n) : (int n).Survives .uint64
  uint64_survives (h : (m.toNat : Int) ≤ Int64.maxValue.toInt) : (uint64 m).Survives .int
  same : (int n).coerce .uint64 = some (uint64 m) ↔ (m.toNat : Int) = n.toInt

theorem isSome_coerce_uint64 (n : Int64) : ((int n).coerce .uint64).isSome ↔ 0 ≤ n :=
  (iff_of_eq (congrArg (· = true) Option.isSome_map)).trans (Word.isSome_unsigned?_toInt n)

theorem isSome_coerce_int (m : UInt64) :
    ((uint64 m).coerce .int).isSome ↔ (m.toNat : Int) ≤ Int64.maxValue.toInt :=
  (iff_of_eq (congrArg (· = true) Option.isSome_map)).trans (Word.isSome_signed?_toNat m)

theorem exchange (n : Int64) (m : UInt64) : Exchange n m where
  int_isSome := isSome_coerce_uint64 n
  uint64_isSome := isSome_coerce_int m
  int_survives h := by
    obtain ⟨w, hw⟩ := Option.isSome_iff_exists.mp ((isSome_coerce_uint64 n).mpr h)
    obtain ⟨k, hk, rfl⟩ := Option.map_eq_some_iff.mp hw
    exact ⟨_, hw, coerce_uint64_int.mpr (coerce_int_uint64.mp hw)⟩
  uint64_survives h := by
    obtain ⟨w, hw⟩ := Option.isSome_iff_exists.mp ((isSome_coerce_int m).mpr h)
    obtain ⟨k, hk, rfl⟩ := Option.map_eq_some_iff.mp hw
    exact ⟨_, hw, coerce_int_uint64.mpr (coerce_uint64_int.mp hw)⟩
  same := coerce_int_uint64

end Value

/-- The value that is read is of the type that is declared. -/
def Scope.ReadsAsDeclared (s : Scope) (name : String) : Prop :=
  s.typeOf name ≠ .unknown → ∀ v, s.value? name = some v → v.type = s.typeOf name

theorem Scope.readsAsDeclared (s : Scope) (name : String) : s.ReadsAsDeclared name := by
  intro htype v hv
  obtain ⟨b, hb, hcoerce⟩ := Option.bind_eq_some_iff.mp hv
  have hdeclared : s.typeOf name = b.type := by rw [typeOf, hb]
  rw [hdeclared] at htype ⊢
  exact (b.raw.settles htype v hcoerce).1

/-- Whole numbers and truth values survive coercion, whole numbers of either kind are exchanged
exactly where they fit, and a value that is coerced to a declared type has it and keeps it. -/
theorem Value.exact_coercions (n : Int64) (m : UInt64) (b : Bool) (v : Value) (s : Scope)
    (name : String) :
    ((int n).Survives .string ∧ (int n).Survives .array) ∧
      ((uint64 m).Survives .string ∧ (uint64 m).Survives .array) ∧ (bool b).Survives .string ∧
      Exchange n m ∧ (∀ type ≠ .unknown, v.Settles type) ∧ s.ReadsAsDeclared name :=
  ⟨int_survives n, uint64_survives m, bool_survives b, exchange n m, fun _ h => v.settles h,
    s.readsAsDeclared name⟩

end GridRules
