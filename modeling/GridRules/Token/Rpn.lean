import GridRules.Fault
import GridRules.Token.Scan

/-! Infix order to operand-first order. Operators wait on a stack until one that binds less
tightly, a closing parenthesis or the end comes. -/
namespace GridRules.Token

/-- A stacked operator leaves before `incoming` if it binds tighter, or as tight and `incoming`
associates to the left. -/
def leavesBefore (incoming stacked : Token) : Bool :=
  if incoming.isRightAssociative then incoming.precedence < stacked.precedence
  else incoming.precedence ≤ stacked.precedence

/-- The stacked operators that leave before `incoming`, and those that stay. -/
def yield (incoming : Token) : List Token → List Token × List Token
  | [] => ([], [])
  | top :: stack =>
    if top.kind = .leftParen ∨ !leavesBefore incoming top then ([], top :: stack)
    else ((yield incoming stack).map (top :: ·) id)

/-- What stands above the nearest opening parenthesis, and what stands below it. -/
def closeGroup : List Token → Option (List Token × List Token)
  | [] => none
  | top :: stack =>
    if top.kind = .leftParen then some ([], stack)
    else (closeGroup stack).map fun (out, rest) => (top :: out, rest)

def unbalanced : SyntaxFault := ⟨.unbalancedParentheses, 0⟩

/-- At the end all operators leave; an opening parenthesis among them was never closed. -/
def finish (stack : List Token) : Except SyntaxFault (List Token) :=
  if stack.any (·.kind = .leftParen) then .error unbalanced else .ok stack

def toRpnFrom (stack : List Token) : List Token → Except SyntaxFault (List Token)
  | [] => finish stack
  | t :: ts => match t.kind with
    | .leftParen => toRpnFrom (t :: stack) ts
    | .rightParen => match closeGroup stack with
      | none => .error unbalanced
      | some (out, rest) => (toRpnFrom rest ts).map (out ++ ·)
    | .separator => toRpnFrom stack ts
    | .arithmetic | .boolean | .comparison =>
      if t.isNot then toRpnFrom (t :: stack) ts
      else
        let (out, rest) := yield t stack
        (toRpnFrom (t :: rest) ts).map (out ++ ·)
    | .array | .string | .numeral | .identifier => (toRpnFrom stack ts).map (t :: ·)

/-- Operand-first order; separators are left out. -/
def toRpn (ts : List Token) : Except SyntaxFault (List Token) := toRpnFrom [] ts

/-- A condition's text in operand-first order. -/
def compile (text : String) : Except SyntaxFault (List Token) := tokenize text >>= toRpn

end GridRules.Token
