import GridRules.Token.Scan
import Mathlib.Data.List.Chain

/-! What the lexemes of each kind look like, and which lists of tokens the scan can give. -/
namespace GridRules.Token

/-- Digits with at most one point and at least one digit. -/
structure IsNumeral (run : List Char) : Prop where
  chars : ∀ c ∈ run, c.isDigit ∨ c = '.'
  digit : ∃ c ∈ run, c.isDigit
  points : run.count '.' ≤ 1

/-- A letter or an underscore, then letters, digits and underscores. -/
structure IsName (c : Char) (cs : List Char) : Prop where
  first : c.isAlpha ∨ c = '_'
  others : ∀ d ∈ cs, d.isAlphanum ∨ d = '_'

/-- Quotes come in pairs, and brackets stand only between the two quotes of a pair. -/
def Enclosed (quoted : Bool) : List Char → Prop
  | [] => quoted = false
  | c :: cs => (quoted = false → c ≠ '[' ∧ c ≠ ']') ∧ Enclosed (quoted != (c == '"')) cs

/-- The shape that the kind of a token asks of its lexeme. -/
def Shaped (t : Token) : Prop :=
  match t.kind with
  | .leftParen => t.lexeme = "("
  | .rightParen => t.lexeme = ")"
  | .separator => t.lexeme ∈ [",", ";"]
  | .arithmetic => t.lexeme ∈ ["+", "-", "*", "/", "^", "%"]
  | .boolean => t.lexeme ∈ ["&&", "||", "!"]
  | .comparison => t.lexeme ∈ ["<", "<=", ">", ">=", "==", "!="]
  | .numeral => ∃ run, IsNumeral run ∧
      (t.lexeme = String.ofList run ∨ t.lexeme = String.ofList ('-' :: run))
  | .identifier => ∃ c cs, IsName c cs ∧ t.lexeme = String.ofList (c :: cs)
  | .string => ∃ body, '"' ∉ body ∧ t.lexeme = String.ofList ('"' :: (body ++ ['"']))
  | .array => ∃ body, Enclosed false body ∧
      (∃ elements, arrayElements (String.ofList body) = .ok elements) ∧
      t.lexeme = String.ofList ('[' :: (body ++ [']']))

def IsSigned (t : Token) : Prop := t.kind = .numeral ∧ t.lexeme.toList.head? = some '-'

/-- A number with a sign may follow only these. -/
def PrecedesValue (t : Token) : Prop :=
  t.kind = .leftParen ∨ t.kind = .separator ∨ t.kind.isOperator

/-- Every lexeme has the shape of its kind, and no sign follows a value. -/
structure WellFormed (ts : List Token) : Prop where
  shaped : ∀ t ∈ ts, t.Shaped
  signs : ts.IsChain fun t u => u.IsSigned → t.PrecedesValue

/-- The signs of a list are where they may be if a token of kind `last` stands before it. -/
def SignsAfter : Option TokenKind → List Token → Prop
  | _, [] => True
  | last, t :: ts => (t.IsSigned → valueExpected last = true) ∧ SignsAfter (some t.kind) ts

theorem valueExpected_iff (t : Token) : valueExpected (some t.kind) = true ↔ t.PrecedesValue := by
  unfold PrecedesValue
  cases t.kind <;> simp [valueExpected, TokenKind.isOperator]

theorem signsAfter_some_iff (t : Token) (ts : List Token) :
    SignsAfter (some t.kind) ts ↔
      (t :: ts).IsChain fun t u => u.IsSigned → t.PrecedesValue := by
  induction ts generalizing t with
  | nil => simp [SignsAfter]
  | cons u ts ih => rw [SignsAfter, List.isChain_cons_cons, ih u, valueExpected_iff]

theorem signsAfter_none_iff (ts : List Token) :
    SignsAfter none ts ↔ ts.IsChain fun t u => u.IsSigned → t.PrecedesValue := by
  cases ts with
  | nil => simp [SignsAfter]
  | cons t ts => simp [SignsAfter, valueExpected, signsAfter_some_iff]

theorem wellFormed_iff {ts : List Token} :
    WellFormed ts ↔ (∀ t ∈ ts, t.Shaped) ∧ SignsAfter none ts := by
  rw [signsAfter_none_iff]
  exact ⟨fun h => ⟨h.shaped, h.signs⟩, fun h => ⟨h.1, h.2⟩⟩

theorem isNumeral_iff {run : List Char} :
    IsNumeral run ↔ (∀ c ∈ run, isNumberChar c = true) ∧ isNumber run = true := by
  simp only [isNumberChar, isNumber, Bool.and_eq_true, List.any_eq_true, decide_eq_true_eq]
  constructor
  · intro h
    exact ⟨h.chars, h.digit, h.points⟩
  · rintro ⟨hc, hd, hp⟩
    exact ⟨hc, hd, hp⟩

end GridRules.Token
