import GridRules.Expression
import GridRules.Proofs.Precedence
import GridRules.Proofs.Rejoin
import GridRules.Proofs.StackMachine

/-! One operator between two operands, from the text to the verdict. What the operator gives is a
numeral, and it is as a numeral that the verdict is read from it. -/
namespace GridRules.Expression
open Token (Shaped)

namespace BinaryOp

/-- The text of an operator between two others. -/
def between (op : BinaryOp) (l r : String) : String := l ++ " " ++ op.token.lexeme ++ " " ++ r

theorem isOperator_token (op : BinaryOp) : op.token.kind.isOperator = true :=
  op.operator.isOperator

theorem shaped_token (op : BinaryOp) : op.token.Shaped := by
  cases op <;> simp [Shaped, token]

theorem not_isSigned_token (op : BinaryOp) : ¬ op.token.IsSigned := by
  cases op <;> simp [Token.IsSigned, token]

variable {l r : Token}

theorem tokenize_between (op : BinaryOp) (hl : l.Shaped) (hr : r.Shaped) :
    Token.tokenize (op.between l.lexeme r.lexeme) = .ok [l, op.token, r] := by
  have htext : op.between l.lexeme r.lexeme = Token.join [l, op.token, r] := by
    simp [between, Token.join, String.intercalate_cons_cons, String.append_assoc]
  have hvalue : Token.valueExpected (some op.token.kind) = true :=
    (Token.valueExpected_iff op.token).mpr (.inr (.inr op.isOperator_token))
  rw [htext]
  refine Token.scan_join 0 ?_ ⟨fun _ => rfl, fun h => absurd h op.not_isSigned_token,
    fun _ => hvalue, trivial⟩
  simp [hl, hr, op.shaped_token]

theorem toRpn_between (op : BinaryOp) (l r : Operand) :
    Token.toRpn [l.token, op.token, r.token] = .ok [l.token, r.token, op.token] := by
  have hnext : Token.toRpnFrom [] (op.token :: [r.token]) =
      (Token.toRpnFrom [op.token] [r.token]).map ([] ++ ·) := op.toRpnFrom_token [] _
  have hend : Token.toRpnFrom [op.token] [] = .ok [op.token] := by
    cases op <;> rfl
  simp [Token.toRpn, toRpnFrom_operand, hnext, hend]

theorem compile_between (op : BinaryOp) (hl : l.Shaped) (hr : r.Shaped)
    (hlo : l.kind.isOperand = true) (hro : r.kind.isOperand = true) :
    Token.compile (op.between l.lexeme r.lexeme) = .ok [l, r, op.token] := by
  rw [Token.compile, op.tokenize_between hl hr, Outcome.bind_ok]
  exact op.toRpn_between ⟨l, hlo⟩ ⟨r, hro⟩

theorem evaluate_between (s : Scope) (op : BinaryOp) (l r : Operand) :
    Evaluate.evaluate s [l.token, r.token, op.token] =
      Evaluate.binaryOp s op.token l.token r.token >>= Evaluate.final s :=
  StackMachine.evaluate_rpn s (.binary op.operator (.operand l) (.operand r))

end BinaryOp

/-! The numerals of truth values. -/

theorem double?_ofBool (b : Bool) :
    Literal.double? (Token.ofBool b).lexeme = some (if b then 1 else 0) := by
  cases b <;> decide +kernel

/-- A truth value is read back from its numeral unless a variable has the numeral for its name. -/
theorem final_ofBool {s : Scope} {b : Bool} (h : s.isBound (Token.ofBool b).lexeme = false) :
    Evaluate.final s (.ofBool b) = .ok (if b then 1 else 0) := by
  have hnumber : Evaluate.number s (.ofBool b) = if b then 1 else 0 := by
    simp [Evaluate.number, Scope.read, Scope.read?, h, Reading.double, double?_ofBool]
  have hfinal : Evaluate.final s (.ofBool b) = .ok (Evaluate.number s (.ofBool b)) := by
    cases b <;> rfl
  rw [hfinal, hnumber]

theorem isNonzero_ofBool (b : Bool) : Binary64.isNonzero (if b then 1 else 0) = b := by
  cases b <;> decide +kernel

variable {s : Scope} {op : BinaryOp} {l r : Operand} {b : Bool}

theorem value_of_compile {text : String} {rpn : List Token} (h : Token.compile text = .ok rpn)
    (s : Scope) : value text s = (Evaluate.evaluate s rpn).mapError .evaluation := by
  obtain ⟨ts, hts, hrpn⟩ := Outcome.bind_eq_ok_iff.mp h
  simp [value, ofTokens, hts, hrpn]

theorem value_between (op : BinaryOp) {l r : Operand} (hl : l.token.Shaped)
    (hr : r.token.Shaped) (s : Scope) :
    value (op.between l.token.lexeme r.token.lexeme) s =
      (Evaluate.binaryOp s op.token l.token r.token >>= Evaluate.final s).mapError .evaluation := by
  rw [value_of_compile (op.compile_between hl hr l.isOperand r.isOperand), op.evaluate_between]

theorem evaluate_between_of_ofBool
    (h : Evaluate.binaryOp s op.token l.token r.token = .ok (.ofBool b))
    (hfree : s.isBound (Token.ofBool b).lexeme = false) :
    Evaluate.evaluate s [l.token, r.token, op.token] = .ok (if b then 1 else 0) := by
  rw [op.evaluate_between, h, Outcome.bind_ok, final_ofBool hfree]

theorem holds_between_of_ofBool
    (h : Evaluate.binaryOp s op.token l.token r.token = .ok (.ofBool b))
    (hfree : s.isBound (Token.ofBool b).lexeme = false) :
    Evaluate.holds s [l.token, r.token, op.token] = .ok b := by
  rw [Evaluate.holds, evaluate_between_of_ofBool h hfree, Outcome.map_ok, isNonzero_ofBool]

end GridRules.Expression
