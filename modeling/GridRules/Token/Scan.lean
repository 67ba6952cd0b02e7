import GridRules.Fault
import GridRules.Text.Blank
import GridRules.Text.Quoted
import GridRules.Token

/-! Text to tokens. One step names the token that starts at a character and how many more
characters belong to it; the scan cuts it off and goes on with the rest. A minus sign belongs to
a number only where a value is expected. -/
namespace GridRules.Token

/-- Kind of a token and how many characters follow its first one. -/
structure Piece where
  kind : TokenKind
  more : Nat

def isGap (c : Char) : Bool := c = ' ' ∨ c = '\t' ∨ c = '\r' ∨ c = '\n'

def isNumberChar (c : Char) : Bool := c.isDigit ∨ c = '.'

def isNameStart (c : Char) : Bool := c.isAlpha ∨ c = '_'

def isNameChar (c : Char) : Bool := c.isAlphanum ∨ c = '_'

/-- The length in UTF-8. -/
def byteLength : List Char → Nat
  | [] => 0
  | c :: cs => c.utf8Size + byteLength cs

/-- A value is expected at the start and after an opening parenthesis, a separator or an
operator. -/
def valueExpected : Option TokenKind → Bool
  | none => true
  | some .leftParen | some .separator => true
  | some kind => kind.isOperator

/-- A run of digits and points is a number if it has a digit and at most one point. -/
def isNumber (run : List Char) : Bool := run.any Char.isDigit && run.count '.' ≤ 1

def numberPiece (c : Char) (cs : List Char) : Except SyntaxFault Piece :=
  let run := cs.takeWhile isNumberChar
  if isNumber (c :: run) then .ok ⟨.numeral, run.length⟩ else .error ⟨.malformedNumber, 0⟩

def minusPiece (last : Option TokenKind) (cs : List Char) : Piece :=
  let run := cs.takeWhile isNumberChar
  if valueExpected last && isNumber run then ⟨.numeral, run.length⟩ else ⟨.arithmetic, 0⟩

def stringPiece (cs : List Char) : Except SyntaxFault Piece :=
  let body := cs.takeWhile (· ≠ '"')
  if body.length < cs.length then .ok ⟨.string, body.length + 1⟩
  else .error ⟨.unterminatedString, 0⟩

/-- Characters of an array before its closing bracket, outside strings; an opening one is
refused at its place. -/
def arrayBody (quoted : Bool) (offset : Nat) : List Char → Except SyntaxFault (List Char)
  | [] => .error ⟨.unterminatedArray, 0⟩
  | c :: cs =>
    if !quoted && c = '[' then .error ⟨.unexpected '[', offset⟩
    else if !quoted && c = ']' then .ok []
    else (arrayBody (quoted != (c == '"')) (offset + c.utf8Size) cs).map (c :: ·)

def arrayPiece (check : List Char → Except SyntaxFault Unit) (cs : List Char) :
    Except SyntaxFault Piece :=
  match arrayBody false 1 cs with
  | .error e => .error e
  | .ok body => match check body with
    | .error e => .error (e.shift 1)
    | .ok () => .ok ⟨.array, body.length + 1⟩

/-- The operator with or without an equals sign after its first character. -/
def comparisonPiece (alone : Except SyntaxFault Piece) : List Char → Except SyntaxFault Piece
  | '=' :: _ => .ok ⟨.comparison, 1⟩
  | _ => alone

/-- The token that starts with `c`; `check` judges the body of an array. Offsets count from
`c`. -/
def piece (check : List Char → Except SyntaxFault Unit) (last : Option TokenKind) (c : Char)
    (cs : List Char) : Except SyntaxFault Piece :=
  match c with
  | '+' | '*' | '/' | '^' | '%' => .ok ⟨.arithmetic, 0⟩
  | '-' => .ok (minusPiece last cs)
  | '&' | '|' =>
    if cs.head? = some c then .ok ⟨.boolean, 1⟩ else .error ⟨.malformedOperator, 0⟩
  | '!' => comparisonPiece (.ok ⟨.boolean, 0⟩) cs
  | '<' | '>' => comparisonPiece (.ok ⟨.comparison, 0⟩) cs
  | '=' => comparisonPiece (.error ⟨.malformedOperator, 0⟩) cs
  | '[' => arrayPiece check cs
  | '"' => stringPiece cs
  | '(' => .ok ⟨.leftParen, 0⟩
  | ')' => .ok ⟨.rightParen, 0⟩
  | ',' | ';' => .ok ⟨.separator, 0⟩
  | _ =>
    if isNumberChar c then numberPiece c cs
    else if isNameStart c then .ok ⟨.identifier, (cs.takeWhile isNameChar).length⟩
    else .error ⟨.unexpected c, 0⟩

/-- The tokens of a text that starts `offset` bytes into the source, after a token of kind
`last`. -/
def scan (check : List Char → Except SyntaxFault Unit) (offset : Nat) (last : Option TokenKind) :
    List Char → Except SyntaxFault (List Token)
  | [] => .ok []
  | c :: cs =>
    if isGap c then scan check (offset + 1) last cs
    else match piece check last c cs with
      | .error e => .error (e.shift offset)
      | .ok p =>
        let lexeme := c :: cs.take p.more
        (scan check (offset + byteLength lexeme) (some p.kind) (cs.drop p.more)).map
          (⟨p.kind, String.ofList lexeme⟩ :: ·)
termination_by cs => cs.length
decreasing_by
  all_goals simp only [List.length_cons, List.length_drop]
  all_goals omega

/-- The elements that an array's body may hold: strings without their quotes, numbers and names
as written. Separators may be left out or repeated. -/
def elements : List Token → Except SyntaxFault (List String)
  | [] => .ok []
  | t :: ts => match t.kind with
    | .string => (elements ts).map (Text.unquote t.lexeme :: ·)
    | .numeral | .identifier => (elements ts).map (t.lexeme :: ·)
    | .separator => elements ts
    | _ => .error ⟨.unexpected (t.lexeme.toList.headD '?'), 0⟩

/-- An array's body holds no other array. -/
def checkBody (body : List Char) : Except SyntaxFault Unit := do
  let ts ← scan (fun _ => .error ⟨.unexpected '[', 0⟩) 0 none (Text.trim body)
  let _ ← elements ts

def tokenize (text : String) : Except SyntaxFault (List Token) :=
  scan checkBody 0 none text.toList

/-- The elements of an array, given with or without its brackets. -/
def arrayElements (lexeme : String) : Except SyntaxFault (List String) := do
  let trimmed := Text.trim lexeme.toList
  let body := (Text.between? '[' ']' trimmed).getD trimmed
  elements (← scan checkBody 0 none body)

end GridRules.Token
