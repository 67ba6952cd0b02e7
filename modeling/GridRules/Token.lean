/-! Tokens of the rule language. A token is a lexeme with its kind; array literals and strings
keep their delimiters. -/
namespace GridRules

inductive TokenKind where
  | leftParen
  | rightParen
  | array
  | arithmetic
  | boolean
  | comparison
  | string
  | numeral
  | identifier
  | separator
  deriving DecidableEq, Repr

structure Token where
  kind : TokenKind
  lexeme : String
  deriving DecidableEq, Repr

def TokenKind.isOperator : TokenKind → Bool
  | .arithmetic | .boolean | .comparison => true
  | _ => false

/-- Kinds that stand for a value. -/
def TokenKind.isOperand : TokenKind → Bool
  | .array | .string | .numeral | .identifier => true
  | _ => false

namespace Token

def isNot (t : Token) : Bool := t.kind = .boolean ∧ t.lexeme = "!"

/-- Binding strength of an operator, `||` weakest and `!` strongest; other tokens have none. -/
def precedence (t : Token) : Nat :=
  match t.kind with
  | .boolean => if t.lexeme = "||" then 1 else if t.lexeme = "&&" then 2 else 8
  | .comparison => if t.lexeme = "==" ∨ t.lexeme = "!=" then 3 else 4
  | .arithmetic =>
    if t.lexeme = "+" ∨ t.lexeme = "-" then 5 else if t.lexeme = "^" then 7 else 6
  | _ => 0

def isRightAssociative (t : Token) : Bool :=
  (t.kind = .arithmetic ∧ t.lexeme = "^") ∨ t.isNot

def ofBool (b : Bool) : Token := ⟨.numeral, if b then "1" else "0"⟩

/-- The lexemes with a single space between each two. -/
def join (ts : List Token) : String := " ".intercalate (ts.map lexeme)

end Token
end GridRules
