import GridRules.Scope
import GridRules.Token

/-! Evaluation of tokens in operand-first order. Operands are stacked as they stand; an operator
replaces its operands by the numeral of its result, so each operand is looked up when an operator
meets it. -/
namespace GridRules.Evaluate

/-- The type that chooses an operator's branch. -/
def classify (s : Scope) (t : Token) : ValueType :=
  match t.kind with
  | .string => .string
  | .array => .array
  | .numeral => .double
  | _ => s.typeOf t.lexeme

def truthy (s : Scope) (t : Token) : Bool := s.read .bool t.lexeme

def number (s : Scope) (t : Token) : Float := s.read .double t.lexeme

def ofNumber (x : Float) : Token := ⟨.numeral, Decimal.text x⟩

def notOp (s : Scope) (t : Token) : Except EvalFault Token :=
  match classify s t with
  | .string => .error (.stringOperator "!")
  | .array => .error (.arrayComparison "!")
  | _ => .ok (.ofBool !truthy s t)

def stringOp (s : Scope) (op : String) (l r : Token) : Except EvalFault Bool :=
  let a := s.read .string l.lexeme
  let b := s.read .string r.lexeme
  if op = "==" then .ok (a == b)
  else if op = "!=" then .ok (a != b)
  else .error (.stringOperator op)

def elementsOf (s : Scope) (t : Token) : Except EvalFault (List String) :=
  match s.read? .array t.lexeme with
  | some xs => .ok xs
  | none => .error (.typeMismatch t.lexeme)

/-- Both lists hold the same elements, each as often. -/
def sameElements : List String → List String → Bool
  | [], ys => ys.isEmpty
  | x :: xs, ys => ys.contains x && sameElements xs (ys.erase x)

/-- Comparisons of tag lists, in which order plays no part. -/
def arrayOp (s : Scope) (op : String) (l r : Token) : Except EvalFault Bool := do
  let a ← elementsOf s l
  let b ← elementsOf s r
  if op = "==" then .ok (sameElements a b)
  else if op = "!=" then .ok !sameElements a b
  else if op = "||" then .ok (a.any b.contains)
  else if op = "&&" then .ok (b.all a.contains)
  else .error (.arrayComparison op)

/-- Both sides are read, whatever the first one is. -/
def booleanOp (op : String) (a b : Bool) : Except EvalFault Bool :=
  if op = "&&" then .ok (a && b)
  else if op = "||" then .ok (a || b)
  else .error (.typeMismatch op)

/-- The remainder of the two whole parts, with the sign of the first. -/
def remainder (a b : Float) : Option Float :=
  let d := Binary64.toInt64 b
  if d = 0 then none else some (Binary64.ofInt (Binary64.toInt64 a % d).toInt)

def arithmeticOp (op : String) (a b : Float) : Except EvalFault Float :=
  if op = "+" then .ok (a + b)
  else if op = "-" then .ok (a - b)
  else if op = "*" then .ok (a * b)
  else if op = "/" then if Binary64.isNonzero b then .ok (a / b) else .error .divisionByZero
  else if op = "^" then .ok (Float.pow a b)
  else if op = "%" then match remainder a b with
    | some x => .ok x
    | none => .error .divisionByZero
  else .error (.typeMismatch op)

/-- A double as an exact whole number, if it is one that fits. -/
def wordOfDouble? (x : Float) : Option UInt64 :=
  if 0 ≤ x && Binary64.isWhole x && x < 18446744073709551616 then some (Binary64.toUInt64 x)
  else none

/-- An operand as an exact whole number, if it is one. -/
def asWord? (s : Scope) (t : Token) : Option UInt64 :=
  match s.value? t.lexeme with
  | some (.uint64 v) => some v
  | some (.int v) => Word.unsigned? v.toInt
  | some (.bool v) => some (if v then 1 else 0)
  | some (.double v) => wordOfDouble? v
  | some _ => none
  | none =>
    let text := Text.trimmed t.lexeme
    match Decimal.uint64? text with
    | some v => some v
    | none => (Decimal.double? text).bind wordOfDouble?

/-- The six comparisons by equality and order of a type. -/
def compare {α : Type} [BEq α] [LT α] [DecidableLT α] [LE α] [DecidableLE α] (op : String)
    (a b : α) : Except EvalFault Bool :=
  if op = "==" then .ok (a == b)
  else if op = "!=" then .ok (a != b)
  else if op = "<" then .ok (a < b)
  else if op = "<=" then .ok (a ≤ b)
  else if op = ">" then .ok (a > b)
  else if op = ">=" then .ok (a ≥ b)
  else .error (.typeMismatch op)

/-- Exact where one side is declared unsigned and both are whole numbers, else on doubles. -/
def comparisonOp (s : Scope) (op : String) (l r : Token) : Except EvalFault Bool :=
  let unsigned := classify s l = .uint64 ∨ classify s r = .uint64
  match asWord? s l, asWord? s r with
  | some a, some b =>
    if unsigned then compare op a b else compare op (number s l) (number s r)
  | _, _ => compare op (number s l) (number s r)

def binaryOp (s : Scope) (op l r : Token) : Except EvalFault Token :=
  let lt := classify s l
  let rt := classify s r
  if lt = .string ∨ rt = .string then (stringOp s op.lexeme l r).map .ofBool
  else if lt = .array ∨ rt = .array then (arrayOp s op.lexeme l r).map .ofBool
  else match op.kind with
    | .boolean => (booleanOp op.lexeme (truthy s l) (truthy s r)).map .ofBool
    | .arithmetic => (arithmeticOp op.lexeme (number s l) (number s r)).map ofNumber
    | .comparison => (comparisonOp s op.lexeme l r).map .ofBool
    | _ => .error (.typeMismatch op.lexeme)

/-- The stack after one token. -/
def step (s : Scope) (t : Token) (stack : List Token) : Except EvalFault (List Token) :=
  if t.kind.isOperand then .ok (t :: stack)
  else if !t.kind.isOperator then .error (.typeMismatch t.lexeme)
  else if t.isNot then match stack with
    | x :: rest => (notOp s x).map (· :: rest)
    | _ => .error .unbalanced
  else match stack with
    | r :: l :: rest => (binaryOp s t l r).map (· :: rest)
    | _ => .error .unbalanced

def run (s : Scope) : List Token → List Token → Except EvalFault (List Token)
  | [], stack => .ok stack
  | t :: ts, stack => step s t stack >>= run s ts

/-- The number that the last operand stands for. -/
def final (s : Scope) (t : Token) : Except EvalFault Float :=
  if t.kind ≠ .numeral ∧ t.kind ≠ .identifier then .error (.typeMismatch t.lexeme)
  else match classify s t with
    | .string | .array => .error (.typeMismatch t.lexeme)
    | _ => .ok (number s t)

def evaluate (s : Scope) (rpn : List Token) : Except EvalFault Float := do
  match ← run s rpn [] with
  | [only] => final s only
  | _ => .error .unbalanced

/-- A condition holds if its number is not zero. -/
def holds (s : Scope) (rpn : List Token) : Except EvalFault Bool :=
  (evaluate s rpn).map Binary64.isNonzero

end GridRules.Evaluate
