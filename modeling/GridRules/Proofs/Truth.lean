import GridRules.Proofs.Listing
import GridRules.Proofs.TagConditions
import GridRules.Proofs.Words

/-! Truth values of names. A name by itself is read as a number, and it holds if the number is not
zero; under an operator it is read as a truth value. The two readings agree on all that a name can
stand for, or fail to stand for, but tags: as a number these are their only element, and as a truth
value they tell whether there are any. -/
namespace GridRules

namespace Binary64

theorem nearest_word_eq_zero_iff {n : Nat} (hn : n < 2 ^ 64) : nearest n 1 = 0 ↔ n = 0 := by
  refine ⟨fun hzero => ?_, fun hzero => by rw [hzero]; decide +kernel⟩
  obtain ⟨m, hunits, -, hsmall, hlarge⟩ := units_nearest_word hn
  have hm : m * one = 0 := by
    rw [← hunits, hzero]
    rfl
  have hm' : m = 0 := (Nat.mul_eq_zero.mp hm).resolve_right one_pos.ne'
  by_cases h : n < 2 ^ 53
  · rw [← hsmall h, hm']
  · have hle := hlarge (Nat.le_of_not_lt h)
    omega

/-- No whole number but zero is rounded to zero. -/
theorem isNonzero_ofInt {i : Int} (h : i.natAbs < 2 ^ 64) : isNonzero (ofInt i) = (i != 0) := by
  have hbits : magnitudeBits (ofInt i) = nearest i.natAbs 1 :=
    magnitudeBits_ofMagnitude _ (nearest_word_lt h)
  rw [Bool.eq_iff_iff, isNonzero, hbits, decide_eq_true_iff, bne_iff_ne, Ne,
    nearest_word_eq_zero_iff h, Int.natAbs_eq_zero]

end Binary64

open Binary64 (isNonzero)

/-! The two readings of texts, of values and of names. -/

theorem Literal.bool?_eq (text : String) : bool? text = (double? text).map isNonzero := by
  unfold bool? double?
  cases truthWord? (bare text) with
  | none => rfl
  | some b => exact congrArg some (Expression.isNonzero_ofBool b).symm

theorem Reading.bool_ofValue {v : Value} (h : ∀ tags, v ≠ .array tags) :
    bool.ofValue v = (double.ofValue v).map isNonzero := by
  cases v with
  | int n =>
    have hword : n.toInt.natAbs < 2 ^ 64 := by
      have hle := n.le_toInt
      have hlt := n.toInt_lt
      omega
    have hne : (n != 0) = (n.toInt != 0) := by
      rw [Bool.eq_iff_iff, bne_iff_ne, bne_iff_ne, Ne, Ne, ← Int64.toInt_inj, Int64.toInt_zero]
    simp only [bool, double, Option.map_some, Binary64.isNonzero_ofInt hword, hne]
  | bool b => simp only [bool, double, Option.map_some, Expression.isNonzero_ofBool]
  | double x => simp only [bool, double, Option.map_some]
  | string text => simp only [bool, double, Literal.bool?_eq]
  | uint64 n =>
    have hword : (n.toNat : Int).natAbs < 2 ^ 64 := n.toNat_lt_size
    have hne : (n != 0) = ((n.toNat : Int) != 0) := by
      rw [Bool.eq_iff_iff, bne_iff_ne, bne_iff_ne, Ne, Ne, Int.natCast_eq_zero, ← UInt64.toNat_inj,
        UInt64.toNat_zero]
    simp only [bool, double, Option.map_some, Binary64.isNonzero_ofInt hword, hne]
  | array tags => exact absurd rfl (h tags)

theorem Reading.single?_eq_some {tags : List String} {tag : String}
    (h : single? tags = some tag) : tags = [tag] := by
  unfold single? at h
  split at h
  · rw [Option.some.inj h]
  · cases h

namespace Scope
variable {s : Scope} {name : String} {tags : List String}

/-- What a name that cannot be read falls back to is the same in both readings. -/
theorem read_bool (h : ∀ tags, s.value? name ≠ some (.array tags)) :
    s.read .bool name = isNonzero (s.read .double name) := by
  have hread : s.read? .bool name = (s.read? .double name).map isNonzero := by
    unfold read?
    split
    · cases hvalue : s.value? name with
      | none => rw [Option.bind_none, Option.bind_none, Option.map_none]
      | some v =>
        rw [Option.bind_some, Option.bind_some]
        exact Reading.bool_ofValue fun tags hv => h tags (hvalue.trans (congrArg some hv))
    · simp only [Reading.bool, Reading.double, Literal.bool?_eq]
  rw [read, read, hread]
  cases s.read? .double name with
  | none => decide +kernel
  | some x => rw [Option.map_some, Option.getD_some, Option.getD_some]

theorem read_bool_array (h : s.value? name = some (.array tags)) :
    s.read .bool name = !tags.isEmpty := by
  simp [read, read?, Evaluate.isBound_of_value? h, h, Reading.bool]

theorem read_double_array (h : s.value? name = some (.array tags)) :
    s.read .double name = ((Reading.single? tags).bind Literal.double?).getD 0 := by
  simp [read, read?, Evaluate.isBound_of_value? h, h, Reading.double]

/-- There are tags, but they are not a single one that is a number other than zero. -/
def HidesTags (s : Scope) (name : String) : Prop :=
  ∃ tags, s.value? name = some (.array tags) ∧ tags ≠ [] ∧
    ∀ tag x, tags = [tag] → Literal.double? tag = some x → isNonzero x = false

theorem HidesTags.read (h : s.HidesTags name) :
    s.read .bool name = true ∧ isNonzero (s.read .double name) = false := by
  obtain ⟨tags, hvalue, hne, hzero⟩ := h
  rw [read_bool_array hvalue, read_double_array hvalue]
  refine ⟨by simpa using hne, ?_⟩
  cases hnumber : (Reading.single? tags).bind Literal.double? with
  | none => decide +kernel
  | some x =>
    obtain ⟨tag, htag, hx⟩ := Option.bind_eq_some_iff.mp hnumber
    rw [Option.getD_some]
    exact hzero tag x (Reading.single?_eq_some htag) hx

/-- Tags under a name that is not declared to stand for any. -/
theorem HidesTags.typeOf (h : s.HidesTags name) (harray : s.typeOf name ≠ .array) :
    s.typeOf name = .unknown := by
  obtain ⟨tags, hvalue, -⟩ := h
  obtain ⟨binding, hbinding, hcoerce⟩ := Option.bind_eq_some_iff.mp hvalue
  have htype : s.typeOf name = binding.type := by simp [Scope.typeOf, hbinding]
  rw [htype] at harray ⊢
  exact (Value.type_coerce hcoerce).resolve_right fun h => harray h.symm

/-- The two readings agree unless there are tags of this kind. -/
theorem read_bool_of_not_hidesTags (h : ¬ s.HidesTags name) :
    s.read .bool name = isNonzero (s.read .double name) := by
  by_cases harray : ∃ tags, s.value? name = some (.array tags)
  · obtain ⟨tags, hvalue⟩ := harray
    rw [read_bool_array hvalue, read_double_array hvalue]
    cases tags with
    | nil => decide +kernel
    | cons tag rest =>
      have hnumber : ∃ tag' x, tag :: rest = [tag'] ∧ Literal.double? tag' = some x ∧
          isNonzero x = true := by
        by_contra hnone
        refine h ⟨tag :: rest, hvalue, nofun, fun tag' x htag hx => ?_⟩
        by_contra hx'
        exact hnone ⟨tag', x, htag, hx, by simpa using hx'⟩
      obtain ⟨tag', x, htag, hx, hnonzero⟩ := hnumber
      rw [htag]
      simp [Reading.single?, hx, hnonzero]
  · exact read_bool fun tags hvalue => harray ⟨tags, hvalue⟩

end Scope

/-! The operators, where the name is no string and no list of tags by its declaration. -/
namespace Evaluate
variable {s : Scope} {t : Token} {b : Bool}

theorem truthy_ofBool (hfree : s.isBound (Token.ofBool b).lexeme = false) :
    truthy s (.ofBool b) = b := by
  have hliteral : Literal.bool? (Token.ofBool b).lexeme = some b := by
    cases b <;> decide +kernel
  simp [truthy, Scope.read, Scope.read?, hfree, Reading.bool, hliteral]

section
variable (ht : classify s t ≠ .string ∧ classify s t ≠ .array)
include ht

theorem notOp_eq : notOp s t = .ok (.ofBool !truthy s t) := by
  unfold notOp
  split
  · rename_i hstring
    exact absurd hstring ht.1
  · rename_i harray
    exact absurd harray ht.2
  · rfl

theorem binaryOp_self {op : Token} (hop : op.kind = .boolean) :
    binaryOp s op t t = (booleanOp op.lexeme (truthy s t) (truthy s t)).map .ofBool := by
  simp [binaryOp, ht, hop]

end

/-- A name has a number unless it is declared as a string or as a list of tags. -/
theorem final_name_eq_ok {name : String} {x : Float}
    (h : final s ⟨.identifier, name⟩ = .ok x) :
    (classify s ⟨.identifier, name⟩ ≠ .string ∧ classify s ⟨.identifier, name⟩ ≠ .array) ∧
      x = s.read .double name := by
  rw [final, if_neg (by simp)] at h
  split at h
  · cases h
  · cases h
  · rename_i hstring harray
    exact ⟨⟨hstring, harray⟩, (Except.ok.inj h).symm⟩

end Evaluate

namespace Expression
open Token (Shaped)

variable {s : Scope} {x : String} {v : Bool}

/-- What is compiled to the order of a tree has the truth value of the tree. -/
theorem holds_of_eval {text : String} {t : Tree} {b : Bool}
    (hcompile : Token.compile text = .ok t.rpn) (heval : t.eval s = .ok (.ofBool b))
    (hfree : s.isBound (Token.ofBool b).lexeme = false) : holds text s = .ok b := by
  rw [holds, value_of_compile hcompile, StackMachine.evaluate_rpn, heval, Outcome.bind_ok,
    final_ofBool hfree, Outcome.mapError_ok, Outcome.map_ok, isNonzero_ofBool]

section
variable (hx : (⟨.identifier, x⟩ : Token).Shaped)
include hx

theorem compile_name : Token.compile x = .ok [⟨.identifier, x⟩] := by
  have hscan : Token.tokenize x = .ok [⟨.identifier, x⟩] :=
    Token.scan_single 0 (Token.admissible_of_kind hx (by simp))
  rw [Token.compile, hscan]
  rfl

/-- No comparison begins with the second sign, since no name begins with an equals sign. -/
theorem tokenize_notNot : Token.tokenize ("!!" ++ x) =
    .ok [Token.negation, Token.negation, ⟨.identifier, x⟩] := by
  have ⟨c, cs, hname, hlexeme⟩ := hx
  have htext : x.toList = c :: cs := (congrArg String.toList hlexeme).trans String.toList_ofList
  have hequals : c ≠ '=' := by
    rintro rfl
    exact absurd hname.first (by decide)
  have hfirst : Token.piece Token.checkBody none '!' ('!' :: x.toList) = .ok ⟨.boolean, 0⟩ := rfl
  have hsecond : Token.piece Token.checkBody (some .boolean) '!' x.toList = .ok ⟨.boolean, 0⟩ := by
    rw [htext]
    show Token.comparisonPiece _ (c :: cs) = _
    unfold Token.comparisonPiece
    split
    · rename_i heq
      exact absurd (List.cons.inj heq).1 hequals
    · rfl
  have hthird : Token.scan Token.checkBody 2 (some .boolean) x.toList = .ok [⟨.identifier, x⟩] :=
    Token.scan_single 2 (Token.admissible_of_kind hx (by simp))
  have hsigns : ("!!" ++ x).toList = '!' :: '!' :: x.toList := by simp
  rw [Token.tokenize, hsigns, Token.scan_piece Token.checkBody 0 none (by decide) hfirst,
    List.drop_zero, Token.scan_piece Token.checkBody _ _ (by decide) hsecond, List.drop_zero]
  exact congrArg (fun r => (r.map (Token.negation :: ·)).map (Token.negation :: ·)) hthird

theorem compile_notNot : Token.compile ("!!" ++ x) =
    .ok [⟨.identifier, x⟩, Token.negation, Token.negation] := by
  rw [Token.compile, tokenize_notNot hx]
  rfl

end

section
variable (hx : (⟨.identifier, x⟩ : Token).Shaped)
  (hclass : Evaluate.classify s ⟨.identifier, x⟩ ≠ .string ∧
    Evaluate.classify s ⟨.identifier, x⟩ ≠ .array)
  (hfree : ∀ b, s.isBound (Token.ofBool b).lexeme = false)
include hx hclass hfree

theorem holds_notNot : holds ("!!" ++ x) s = .ok (s.read .bool x) := by
  let name : Operand := ⟨⟨.identifier, x⟩, rfl⟩
  have hnumeral : Evaluate.classify s (.ofBool !s.read .bool x) = .double := rfl
  have htwice : Evaluate.notOp s (.ofBool !s.read .bool x) = .ok (.ofBool (s.read .bool x)) := by
    rw [Evaluate.notOp_eq (by simp [hnumeral]), Evaluate.truthy_ofBool (hfree _), Bool.not_not]
  have heval : (Tree.negation (.negation (.operand name))).eval s =
      .ok (.ofBool (s.read .bool x)) := by
    rw [Tree.eval, Tree.eval, Tree.eval, Outcome.bind_ok, Evaluate.notOp_eq hclass,
      Outcome.bind_ok]
    exact htwice
  exact holds_of_eval (t := .negation (.negation (.operand name))) (compile_notNot hx) heval
    (hfree _)

/-- Both sides of the operator are the same. -/
theorem holds_between_self (op : BinaryOp) (hkind : op.token.kind = .boolean)
    (hself : ∀ b, Evaluate.booleanOp op.token.lexeme b b = .ok b) :
    holds (op.between x x) s = .ok (s.read .bool x) := by
  let name : Operand := ⟨⟨.identifier, x⟩, rfl⟩
  have hcompile : Token.compile (op.between x x) =
      .ok (Tree.binary op.operator (.operand name) (.operand name)).rpn :=
    op.compile_between (l := name.token) (r := name.token) hx hx rfl rfl
  have hbinary := Evaluate.binaryOp_self hclass hkind
  rw [hself, Outcome.map_ok] at hbinary
  have heval : (Tree.binary op.operator (.operand name) (.operand name)).eval s =
      .ok (.ofBool (s.read .bool x)) := by
    rw [Tree.eval, Tree.eval, Outcome.bind_ok, Outcome.bind_ok]
    exact hbinary
  exact holds_of_eval hcompile heval (hfree _)

end

/-- The texts in which an operator reads a name. -/
def underOperators (x : String) : List String :=
  ["!!" ++ x, BinaryOp.and.between x x, BinaryOp.or.between x x]

theorem holds_underOperators (hx : (⟨.identifier, x⟩ : Token).Shaped)
    (hclass : Evaluate.classify s ⟨.identifier, x⟩ ≠ .string ∧
      Evaluate.classify s ⟨.identifier, x⟩ ≠ .array)
    (hfree : ∀ b, s.isBound (Token.ofBool b).lexeme = false) :
    ∀ text ∈ underOperators x, holds text s = .ok (s.read .bool x) := by
  simp only [underOperators, List.forall_mem_cons]
  exact ⟨holds_notNot hx hclass hfree, holds_between_self hx hclass hfree .and rfl (by decide),
    holds_between_self hx hclass hfree .or rfl (by decide), nofun⟩

/-- A name has a truth value by itself unless it is declared as a string or as a list of tags. -/
theorem of_holds_name (hx : (⟨.identifier, x⟩ : Token).Shaped) (h : holds x s = .ok v) :
    (Evaluate.classify s ⟨.identifier, x⟩ ≠ .string ∧
      Evaluate.classify s ⟨.identifier, x⟩ ≠ .array) ∧ v = isNonzero (s.read .double x) := by
  rw [holds, value_of_compile (compile_name hx)] at h
  obtain ⟨y, hy, rfl⟩ := Outcome.map_eq_ok_iff.mp h
  have hfinal := Outcome.mapError_eq_ok_iff.mp hy
  obtain ⟨hclass, rfl⟩ := Evaluate.final_name_eq_ok hfinal
  exact ⟨hclass, rfl⟩

/-- A name that has a truth value by itself has the same one under an operator, unless it stands for
tags of which it does not see that they are there. -/
theorem holds_underOperators_of_bare (hx : (⟨.identifier, x⟩ : Token).Shaped)
    (hzero : s.isBound "0" = false) (hone : s.isBound "1" = false) (h : holds x s = .ok v) :
    (¬ s.HidesTags x → ∀ text ∈ underOperators x, holds text s = .ok v) ∧
      (s.HidesTags x → s.typeOf x = .unknown ∧ v = false ∧
        ∀ text ∈ underOperators x, holds text s = .ok true) := by
  have hfree : ∀ b, s.isBound (Token.ofBool b).lexeme = false := fun b => by
    cases b
    · exact hzero
    · exact hone
  obtain ⟨hclass, hv⟩ := of_holds_name hx h
  have hoperators := holds_underOperators hx hclass hfree
  refine ⟨fun htags => ?_, fun htags => ?_⟩
  · rwa [Scope.read_bool_of_not_hidesTags htags, ← hv] at hoperators
  · obtain ⟨hbool, hdouble⟩ := htags.read
    rw [hbool] at hoperators
    exact ⟨htags.typeOf hclass.2, hv.trans hdouble, hoperators⟩

/-- A single tag that is a number, under a name that is not declared to stand for tags. -/
theorem holds_underOperators_of_single :
    let vars : Variables Unit := Table.empty.put "X" ⟨.unknown, .constant (.array ["-2.5"])⟩
    let s := vars.scope ()
    (⟨.identifier, "X"⟩ : Token).Shaped ∧ s.isBound "0" = false ∧ s.isBound "1" = false ∧
      holds "X" s = .ok true ∧ ¬ s.HidesTags "X" ∧
      underOperators "X" = ["!!X", "X && X", "X || X"] ∧
      ∀ text ∈ underOperators "X", holds text s = .ok true := by
  intro vars s
  have hx : (⟨.identifier, "X"⟩ : Token).Shaped := ⟨'X', [], ⟨.inl rfl, by simp⟩, rfl⟩
  have hbare : holds "X" s = .ok true := by decide +kernel
  have htags : ¬ s.HidesTags "X" := by
    rintro ⟨tags, hvalue, -, hnumber⟩
    obtain rfl : ["-2.5"] = tags := Value.array.inj (Option.some.inj hvalue)
    have hread : Literal.double? "-2.5" = some (-2.5) := by decide +kernel
    exact absurd (hnumber _ _ rfl hread) (by decide +kernel)
  exact ⟨hx, rfl, rfl, hbare, htags, by decide,
    (holds_underOperators_of_bare hx rfl rfl hbare).1 htags⟩

/-- A tag that is no number is false by itself and true under every operator. -/
theorem holds_underOperators_of_word :
    let vars : Variables Unit := Table.empty.put "X" ⟨.unknown, .constant (.array ["a"])⟩
    let s := vars.scope ()
    s.isBound "0" = false ∧ s.isBound "1" = false ∧ holds "X" s = .ok false ∧
      holds "!!X" s = .ok true ∧ holds "X && X" s = .ok true ∧ holds "X || X" s = .ok true := by
  decide +kernel

end Expression
end GridRules
