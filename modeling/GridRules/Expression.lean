import GridRules.Evaluate
import GridRules.Token.Rpn

/-! Expressions: infix tokens, or a text of them, that stand for a number. A text that cannot be
read is a syntactic fault, whatever the names in it stand for. -/
namespace GridRules.Expression

/-- The number that infix tokens stand for. -/
def ofTokens (ts : List Token) (s : Scope) : Except Fault Float := do
  let rpn ← (Token.toRpn ts).mapError .syntactic
  (Evaluate.evaluate s rpn).mapError .evaluation

/-- The number that a text stands for. -/
def value (text : String) (s : Scope) : Except Fault Float := do
  let ts ← (Token.tokenize text).mapError .syntactic
  ofTokens ts s

/-- The text as a condition. -/
def holds (text : String) (s : Scope) : Except Fault Bool :=
  (value text s).map Binary64.isNonzero

end GridRules.Expression
