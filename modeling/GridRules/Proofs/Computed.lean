import GridRules.Proofs.Groups
import GridRules.Proofs.Words

/-! Computed operands. The result of an operator is a numeral, the text of the number, and that
text is read as a word where it shows one. The number itself may be another one, so a comparison
with an unsigned variable sees the computed number from the side on which its text stands. -/
namespace GridRules

namespace Text

theorem unquote_of_not_mem {s : String} (h : '"' ∉ s.toList) : unquote s = s := by
  unfold unquote between?
  split
  · rename_i inner hinner
    split at hinner
    · cases hinner
    · rename_i c rest hs
      have hc : c ≠ '"' := fun hc => h (by rw [hs, hc]; exact List.mem_cons_self)
      rw [if_neg fun hboth => hc hboth.1] at hinner
      cases hinner
  · rfl

end Text

namespace Decimal
variable {text : String}

theorem IsNumeric.trimmed_eq (h : IsNumeric text) : Text.trimmed text = text := by
  refine Text.trimmed_eq_self fun c hc => ?_
  obtain hnumber | rfl := h c hc
  · exact Token.not_isBlank_of_isNumberChar hnumber
  · decide

theorem IsNumeric.bare_eq (h : IsNumeric text) : Literal.bare text = text := by
  rw [Literal.bare, h.trimmed_eq]
  refine Text.unquote_of_not_mem fun hc => ?_
  obtain hnumber | hminus := h _ hc
  · cases hnumber
  · cases hminus

/-- A numeric text is read as it stands. -/
theorem IsNumeric.literal_eq (h : IsNumeric text) : Literal.double? text = double? text := by
  have hword : Literal.truthWord? text = none := by
    have htrue : text ≠ "true" := h.ne (by decide)
    have hTRUE : text ≠ "TRUE" := h.ne (by decide)
    have hfalse : text ≠ "false" := h.ne (by decide)
    have hFALSE : text ≠ "FALSE" := h.ne (by decide)
    simp [Literal.truthWord?, htrue, hTRUE, hfalse, hFALSE]
  rw [Literal.double?, h.bare_eq, hword]

theorem IsNumeric.literal_int64 (h : IsNumeric text) {n : Int64} (hn : int64? text = some n) :
    Literal.int64? text = some n := by
  rw [← h.bare_eq] at hn
  delta Literal.int64?
  rw [hn]

theorem IsNumeric.literal_uint64 (h : IsNumeric text) {n : UInt64} (hn : uint64? text = some n) :
    Literal.uint64? text = some n := by
  rw [← h.bare_eq] at hn
  delta Literal.uint64?
  rw [hn]

theorem literal_text {x : Float} (h : Binary64.isFinite x = true) :
    Literal.double? (Decimal.text x) = some x :=
  (isNumeric_text h).literal_eq.trans (double?_text h)

end Decimal

namespace Evaluate
variable {s : Scope} {v : Float} {name : String}

theorem number_ofNumber (hfin : Binary64.isFinite v = true)
    (hfree : s.isBound (Decimal.text v) = false) : number s (ofNumber v) = v := by
  simp [number, ofNumber, Scope.read, Scope.read?, hfree, Reading.double, Decimal.literal_text hfin]

/-- A number that is no double is not read as one either. -/
theorem isFinite_number_ofNumber (hfin : Binary64.isFinite v = false)
    (hfree : s.isBound (Decimal.text v) = false) :
    Binary64.isFinite (number s (ofNumber v)) = false := by
  have hread : number s (ofNumber v) = (Literal.double? (Decimal.text v)).getD 0 := by
    simp [number, ofNumber, Scope.read, Scope.read?, hfree, Reading.double]
  obtain htext | htext | htext := Decimal.text_of_not_isFinite hfin <;> rw [hread, htext] <;>
    decide +kernel

/-- As a word the numeral is read by its text first. -/
theorem asWord?_ofNumber (hfin : Binary64.isFinite v = true)
    (hfree : s.isBound (Decimal.text v) = false) :
    asWord? s (ofNumber v) = (Decimal.uint64? (Decimal.text v)).or (wordOfDouble? v) := by
  have hvalue : s.value? (Decimal.text v) = none := Expression.value?_of_not_isBound hfree
  have htrimmed := (Decimal.isNumeric_text hfin).trimmed_eq
  simp only [asWord?, ofNumber, hvalue, htrimmed, Decimal.double?_text hfin, Option.bind_some]
  cases Decimal.uint64? (Decimal.text v) <;> rfl

theorem value?_double (h : s name = some ⟨.double, .double v⟩) :
    s.value? name = some (.double v) := by
  simp [Scope.value?, h, Value.coerce, ValueType.read?, Reading.double]

theorem number_double (h : s name = some ⟨.double, .double v⟩) :
    number s ⟨.identifier, name⟩ = v := by
  have hbound : s.isBound name = true := by simp [Scope.isBound, h]
  simp [number, Scope.read, Scope.read?, hbound, value?_double h, Reading.double]

theorem asWord?_double (h : s name = some ⟨.double, .double v⟩) :
    asWord? s ⟨.identifier, name⟩ = wordOfDouble? v := by
  simp only [asWord?, value?_double h]

/-- A comparison looks at an operand's class, its word and its number only. -/
theorem binaryOp_congr {op l r r' : Token} (hop : op.kind = .comparison)
    (hl : classify s l = .uint64) (hr : classify s r = .double) (hr' : classify s r' = .double)
    (hword : asWord? s r = asWord? s r') (hnumber : number s r = number s r') :
    binaryOp s op l r = binaryOp s op l r' := by
  simp [binaryOp, comparisonOp, hop, hl, hr, hr', hword, hnumber]

/-! What an operator gives is the numeral of a number. -/

theorem ofBool_eq (b : Bool) : Token.ofBool b = ofNumber (if b then 1 else 0) := by
  cases b <;> decide +kernel

theorem exists_ofNumber_of_map_ofBool {r : Except EvalFault Bool} {t : Token}
    (h : r.map Token.ofBool = .ok t) : ∃ x, t = ofNumber x := by
  obtain ⟨b, -, rfl⟩ := Outcome.map_eq_ok_iff.mp h
  exact ⟨_, ofBool_eq b⟩

theorem exists_ofNumber_of_notOp {t u : Token} (h : notOp s t = .ok u) : ∃ x, u = ofNumber x := by
  unfold notOp at h
  split at h
  · cases h
  · cases h
  · cases h
    exact ⟨_, ofBool_eq _⟩

theorem exists_ofNumber_of_binaryOp {op l r t : Token} (h : binaryOp s op l r = .ok t) :
    ∃ x, t = ofNumber x := by
  simp only [binaryOp] at h
  split at h
  · exact exists_ofNumber_of_map_ofBool h
  · split at h
    · exact exists_ofNumber_of_map_ofBool h
    · split at h
      · exact exists_ofNumber_of_map_ofBool h
      · obtain ⟨x, -, rfl⟩ := Outcome.map_eq_ok_iff.mp h
        exact ⟨x, rfl⟩
      · exact exists_ofNumber_of_map_ofBool h
      · cases h

end Evaluate

namespace Expression
open Evaluate (ofNumber)

variable {s : Scope} {text : String} {v : Float}

theorem exists_ofNumber_of_eval {t : Tree} {u : Token} (h : t.eval s = .ok u) :
    (∃ x : Operand, t = .operand x) ∨ ∃ x, u = ofNumber x := by
  cases t with
  | operand x => exact .inl ⟨x, rfl⟩
  | negation t =>
    obtain ⟨x, -, hx⟩ := Outcome.bind_eq_ok_iff.mp h
    exact .inr (Evaluate.exists_ofNumber_of_notOp hx)
  | binary op l r =>
    obtain ⟨a, -, ha⟩ := Outcome.bind_eq_ok_iff.mp h
    obtain ⟨b, -, hb⟩ := Outcome.bind_eq_ok_iff.mp ha
    exact .inr (Evaluate.exists_ofNumber_of_binaryOp hb)

/-- A text that has an operator in it and comes to a finite double. -/
structure Computes (s : Scope) (text : String) (v : Float) : Prop where
  operator : ∃ ts, Token.tokenize text = .ok ts ∧ ∃ t ∈ ts, t.kind.isOperator = true
  result : value text s = .ok v
  finite : Binary64.isFinite v = true

/-- No variable has the text of a number for its name. -/
def NumbersFree (s : Scope) : Prop := ∀ x : Float, s.isBound (Decimal.text x) = false

theorem final_ofNumber (s : Scope) (x : Float) :
    Evaluate.final s (ofNumber x) = .ok (Evaluate.number s (ofNumber x)) := rfl

/-- What is computed stands on the stack as the numeral of its value. -/
theorem Computes.exists_tree (h : Computes s text v) (hfree : NumbersFree s) :
    ∃ ts, ∃ t : Tree, Token.tokenize text = .ok ts ∧ Token.toRpn ts = .ok t.rpn ∧
      t.eval s = .ok (ofNumber v) := by
  obtain ⟨ts, hts, o, ho, hoperator⟩ := h.operator
  have hvalue := h.result
  rw [value, hts, Outcome.mapError_ok, Outcome.bind_ok, ofTokens] at hvalue
  obtain ⟨rpn, hrpn, hvalue⟩ := Outcome.bind_eq_ok_iff.mp hvalue
  replace hrpn := Outcome.mapError_eq_ok_iff.mp hrpn
  replace hvalue := Outcome.mapError_eq_ok_iff.mp hvalue
  obtain ⟨t, rfl⟩ := StackMachine.exists_tree_of_evaluate s hvalue
  rw [StackMachine.evaluate_rpn] at hvalue
  obtain ⟨u, hu, hfinal⟩ := Outcome.bind_eq_ok_iff.mp hvalue
  refine ⟨ts, t, hts, hrpn, ?_⟩
  obtain ⟨x, rfl⟩ | ⟨x, rfl⟩ := exists_ofNumber_of_eval hu
  · -- the operator is among the tokens that come out, and an operand alone has none
    have hperm := Token.toRpnFrom_perm Token.stacked_nil hrpn
    have hmem : o ∈ Token.terms ts := List.mem_filter.mpr ⟨ho, Token.isTerm_of_isOperator hoperator⟩
    have hx : o = x.token := List.mem_singleton.mp (hperm.mem_iff.mpr hmem)
    have hoperand := x.isOperand
    rw [← hx, TokenKind.not_isOperand hoperator] at hoperand
    cases hoperand
  · rw [final_ofNumber] at hfinal
    have hnumber := Except.ok.inj hfinal
    cases hfin : Binary64.isFinite x with
    | true => rw [hu, ← hnumber, Evaluate.number_ofNumber hfin (hfree x)]
    | false =>
      have hinfinite := Evaluate.isFinite_number_ofNumber hfin (hfree x)
      rw [hnumber, h.finite] at hinfinite
      cases hinfinite

/-- An operator finds the numeral of a computed value where it would find an operand. -/
theorem Computes.value_group (h : Computes s text v) (hfree : NumbersFree s) (op : BinaryOp)
    {l : Operand} (hl : l.token.Shaped) :
    value (op.between l.token.lexeme ("(" ++ text ++ ")")) s =
      (Evaluate.binaryOp s op.token l.token (ofNumber v) >>= Evaluate.final s).mapError
        .evaluation := by
  obtain ⟨ts, t, hts, hrpn, heval⟩ := h.exists_tree hfree
  have hcompile : Token.compile (op.between l.token.lexeme ("(" ++ text ++ ")")) =
      .ok (Tree.binary op.operator (.operand l) t).rpn := by
    rw [Token.compile, op.tokenize_between_group hl hts, Outcome.bind_ok,
      op.toRpn_between_group l hrpn]
    rfl
  rw [value_of_compile hcompile, StackMachine.evaluate_rpn, Tree.eval, Tree.eval, heval]
  rfl

/-! Comparisons of an unsigned variable with a computed operand, and with a variable that holds
the same value. -/

section
variable {x y : String} {u n : UInt64}

theorem evaluation_of_ofBool (hfree : NumbersFree s) {r : Except EvalFault Token} {b : Bool}
    (h : r = .ok (.ofBool b)) :
    (r >>= Evaluate.final s).mapError Fault.evaluation = .ok (if b then 1 else 0) := by
  have hnumeral : s.isBound (Token.ofBool b).lexeme = false := by
    rw [Evaluate.ofBool_eq]
    exact hfree _
  rw [h, Outcome.bind_ok, final_ofBool hnumeral, Outcome.mapError_ok]

theorem Computes.value_of_word (h : Computes s text v) (hfree : NumbersFree s)
    (hx : (⟨.identifier, x⟩ : Token).Shaped) (hu : s x = some ⟨.uint64, .uint64 u⟩)
    (hn : Decimal.uint64? (Decimal.text v) = some n) (rel : Relation) :
    value (rel.op.between x ("(" ++ text ++ ")")) s =
      .ok (if rel.holds u.toNat n.toNat then 1 else 0) := by
  let l : Operand := ⟨⟨.identifier, x⟩, rfl⟩
  have hclass : Evaluate.classify s ⟨.identifier, x⟩ = .uint64 := Evaluate.classify_of_type hu
  have hword : Evaluate.asWord? s (ofNumber v) = some n := by
    rw [Evaluate.asWord?_ofNumber h.finite (hfree v), hn, Option.some_or]
  have hvalue := h.value_group hfree rel.op (l := l) hx
  refine hvalue.trans (evaluation_of_ofBool hfree ?_)
  exact binaryOp_of_words (Evaluate.asWord?_unsigned hu) hword (by simp [hclass]) ⟨nofun, nofun⟩
    (.inl hclass) rel

theorem value_double_of_word (hfree : NumbersFree s) (hfin : Binary64.isFinite v = true)
    (hx : (⟨.identifier, x⟩ : Token).Shaped) (hy : (⟨.identifier, y⟩ : Token).Shaped)
    (hu : s x = some ⟨.uint64, .uint64 u⟩) (hv : s y = some ⟨.double, .double v⟩)
    (hn : Decimal.uint64? (Decimal.text v) = some n) (rel : Relation) :
    value (rel.op.between x y) s =
      .ok (if rel.holds u.toNat (Binary64.whole v) then 1 else 0) := by
  let l : Operand := ⟨⟨.identifier, x⟩, rfl⟩
  let r : Operand := ⟨⟨.identifier, y⟩, rfl⟩
  have hclass : Evaluate.classify s ⟨.identifier, x⟩ = .uint64 := Evaluate.classify_of_type hu
  have hclass' : Evaluate.classify s ⟨.identifier, y⟩ = .double := Evaluate.classify_of_type hv
  obtain ⟨hword, hlt, -⟩ := Evaluate.wordOfDouble?_of_uint64?_text hfin hn
  rw [← Evaluate.asWord?_double hv] at hword
  have hvalue := value_between rel.op (l := l) (r := r) hx hy s
  refine hvalue.trans (evaluation_of_ofBool hfree ?_)
  have hbinary := binaryOp_of_words (Evaluate.asWord?_unsigned hu) hword (by simp [hclass])
    (by simp [hclass']) (.inl hclass) rel
  rwa [UInt64.toNat_ofNat_of_lt' hlt] at hbinary

/-- A text that shows no word is read as the value itself. -/
theorem Computes.value_of_no_word (h : Computes s text v) (hfree : NumbersFree s)
    (hx : (⟨.identifier, x⟩ : Token).Shaped) (hy : (⟨.identifier, y⟩ : Token).Shaped)
    (hu : s x = some ⟨.uint64, .uint64 u⟩) (hv : s y = some ⟨.double, .double v⟩)
    (hn : Decimal.uint64? (Decimal.text v) = none) (rel : Relation) :
    value (rel.op.between x ("(" ++ text ++ ")")) s = value (rel.op.between x y) s := by
  let l : Operand := ⟨⟨.identifier, x⟩, rfl⟩
  let r : Operand := ⟨⟨.identifier, y⟩, rfl⟩
  have hword : Evaluate.asWord? s (ofNumber v) = Evaluate.asWord? s r.token := by
    rw [Evaluate.asWord?_ofNumber h.finite (hfree v), hn, Option.none_or,
      Evaluate.asWord?_double hv]
  have hnumber : Evaluate.number s (ofNumber v) = Evaluate.number s r.token := by
    rw [Evaluate.number_ofNumber h.finite (hfree v), Evaluate.number_double hv]
  have hbinary := Evaluate.binaryOp_congr rel.kind_token (Evaluate.classify_of_type hu) rfl
    (Evaluate.classify_of_type hv) hword hnumber
  have hvalue := h.value_group hfree rel.op (l := l) hx
  rw [hbinary] at hvalue
  exact hvalue.trans (value_between rel.op (l := l) (r := r) hx hy s).symm

/-- All comparisons of one text come out the same with either of two others. -/
def SameComparisons (s : Scope) (x a b : String) : Prop :=
  ∀ rel : Relation, value (rel.op.between x a) s = value (rel.op.between x b) s

theorem ofBool_injective {b c : Bool} {ε : Type}
    (h : (.ok (if b then 1 else 0) : Except ε Float) = .ok (if c then 1 else 0)) : b = c := by
  have hnonzero := congrArg Binary64.isNonzero (Except.ok.inj h)
  rwa [isNonzero_ofBool, isNonzero_ofBool] at hnonzero

/-- A computed operand is compared as its value unless its text shows a word on another side of
the variable than the value; below `2 ^ 53` it is always compared as its value. -/
theorem sameComparisons_iff (hx : (⟨.identifier, x⟩ : Token).Shaped)
    (hy : (⟨.identifier, y⟩ : Token).Shaped) (hu : s x = some ⟨.uint64, .uint64 u⟩)
    (hv : s y = some ⟨.double, .double v⟩) (h : Computes s text v) (hfree : NumbersFree s) :
    (SameComparisons s x ("(" ++ text ++ ")") y ↔
      ∀ n, Decimal.uint64? (Decimal.text v) = some n →
        compare u.toNat n.toNat = compare u.toNat (Binary64.whole v)) ∧
    (Binary64.whole v < 2 ^ 53 → SameComparisons s x ("(" ++ text ++ ")") y) := by
  have hiff : SameComparisons s x ("(" ++ text ++ ")") y ↔
      ∀ n, Decimal.uint64? (Decimal.text v) = some n →
        compare u.toNat n.toNat = compare u.toNat (Binary64.whole v) := by
    refine ⟨fun hsame n hn => Relation.holds_eq_iff.mp fun rel => ?_, fun hcompare rel => ?_⟩
    · have hvalue := hsame rel
      rw [h.value_of_word hfree hx hu hn, value_double_of_word hfree h.finite hx hy hu hv hn]
        at hvalue
      exact ofBool_injective hvalue
    · cases hn : Decimal.uint64? (Decimal.text v) with
      | none => exact h.value_of_no_word hfree hx hy hu hv hn rel
      | some n =>
        rw [h.value_of_word hfree hx hu hn, value_double_of_word hfree h.finite hx hy hu hv hn,
          Relation.holds_eq_iff.mpr (hcompare n hn) rel]
  refine ⟨hiff, fun hsmall => hiff.mpr fun n hn => ?_⟩
  rw [(Evaluate.wordOfDouble?_of_uint64?_text h.finite hn).2.2 hsmall]

end

theorem numbersFree_of_two (a b : Value) :
    NumbersFree ((Variables.bindConstant (Variables.bindConstant Table.empty "U" a) "D" b).scope
      ()) := by
  intro z
  have hU : Decimal.text z ≠ "U" := Decimal.text_ne (by decide) (by decide) z
  have hD : Decimal.text z ≠ "D" := Decimal.text_ne (by decide) (by decide) z
  simp [Scope.isBound, Variables.scope, Variables.bindConstant, hU, hD]

/-- A computed value between `2 ^ 53` and the variable. Its text shows another word, which is on
the same side of the variable. -/
theorem sameComparisons_of_large :
    let s := (Variables.bindConstant (Variables.bindConstant Table.empty "U"
      (.uint64 10000000000000000000)) "D" (.double 9223372036854775808)).scope ()
    let text := "9223372036854775808 + 0"
    Computes s text 9223372036854775808 ∧ NumbersFree s ∧
      Decimal.uint64? (Decimal.text 9223372036854775808) = some 9223372036854776000 ∧
      SameComparisons s "U" ("(" ++ text ++ ")") "D" := by
  intro s text
  have hU : (⟨.identifier, "U"⟩ : Token).Shaped := ⟨'U', [], ⟨.inl rfl, by simp⟩, rfl⟩
  have hD : (⟨.identifier, "D"⟩ : Token).Shaped := ⟨'D', [], ⟨.inl rfl, by simp⟩, rfl⟩
  have htext : Computes s text 9223372036854775808 :=
    ⟨⟨[⟨.numeral, "9223372036854775808"⟩, ⟨.arithmetic, "+"⟩, ⟨.numeral, "0"⟩],
      by decide +kernel, ⟨.arithmetic, "+"⟩, by simp, rfl⟩, by decide +kernel, by decide +kernel⟩
  have hfree : NumbersFree s := numbersFree_of_two _ _
  have hword : Decimal.uint64? (Decimal.text 9223372036854775808) = some 9223372036854776000 := by
    decide +kernel
  have hwhole : Binary64.whole 9223372036854775808 = 9223372036854775808 := by decide +kernel
  refine ⟨htext, hfree, hword, (sameComparisons_iff hU hD rfl rfl htext hfree).1.mpr fun n hn => ?_⟩
  rw [hword] at hn
  cases hn
  rw [hwhole]
  decide

/-- A comparison with a computed number that comes out otherwise than with the number itself. -/
theorem not_sameComparisons_of_large :
    let s := (Variables.bindConstant (Variables.bindConstant Table.empty "U"
      (.uint64 9223372036854775808)) "D" (.double 9223372036854775808)).scope ()
    let text := "9223372036854775808 + 0"
    Computes s text 9223372036854775808 ∧ NumbersFree s ∧
      s "U" = some ⟨.uint64, .uint64 9223372036854775808⟩ ∧
      s "D" = some ⟨.double, .double 9223372036854775808⟩ ∧
      BinaryOp.eq.between "U" ("(" ++ text ++ ")") = "U == (9223372036854775808 + 0)" ∧
      value "U == (9223372036854775808 + 0)" s = .ok 0 ∧ value "U == D" s = .ok 1 ∧
      ¬ SameComparisons s "U" ("(" ++ text ++ ")") "D" := by
  intro s text
  have htext : Computes s text 9223372036854775808 :=
    ⟨⟨[⟨.numeral, "9223372036854775808"⟩, ⟨.arithmetic, "+"⟩, ⟨.numeral, "0"⟩],
      by decide +kernel, ⟨.arithmetic, "+"⟩, by simp, rfl⟩, by decide +kernel, by decide +kernel⟩
  have hcomputed : value "U == (9223372036854775808 + 0)" s = .ok 0 := by decide +kernel
  have hdouble : value "U == D" s = .ok 1 := by decide +kernel
  have hleft : BinaryOp.eq.between "U" ("(" ++ text ++ ")") = "U == (9223372036854775808 + 0)" := by
    decide
  have hright : BinaryOp.eq.between "U" "D" = "U == D" := by decide
  refine ⟨htext, numbersFree_of_two _ _, rfl, rfl, hleft, hcomputed, hdouble, fun hsame => ?_⟩
  have heq := hsame .eq
  rw [Relation.op, hleft, hright, hcomputed, hdouble] at heq
  exact absurd heq (by decide +kernel)

end Expression
end GridRules
