/-! The words of JSON text. A string is kept as its code units while its escapes are read; units
that name no character leave a string without a text. -/
namespace GridRules.Json

inductive Lexeme where
  | openArray
  | closeArray
  | openObject
  | closeObject
  | comma
  | colon
  | null
  | bool (b : Bool)
  | integer (negative : Bool) (n : Nat)
  /-- A number with a fraction or an exponent. -/
  | fraction
  /-- No text if a surrogate in it stands alone. -/
  | string (s : Option String)
  deriving DecidableEq

def isSpace (c : Char) : Bool := c = ' ' ∨ c = '\t' ∨ c = '\r' ∨ c = '\n'

def hexValue? (c : Char) : Option Nat :=
  if c.isDigit then some (c.toNat - '0'.toNat)
  else if 'a' ≤ c ∧ c ≤ 'f' then some (c.toNat - 'a'.toNat + 10)
  else if 'A' ≤ c ∧ c ≤ 'F' then some (c.toNat - 'A'.toNat + 10)
  else none

def hexValues? (cs : List Char) : Option Nat :=
  cs.foldlM (fun n c => (hexValue? c).map (16 * n + ·)) 0

/-- The character that a one-letter escape stands for. -/
def shortEscape? : Char → Option Char
  | '"' => some '"'
  | '\\' => some '\\'
  | '/' => some '/'
  | 'b' => some '\x08'
  | 'f' => some '\x0c'
  | 'n' => some '\n'
  | 'r' => some '\r'
  | 't' => some '\t'
  | _ => none

/-- The code units before the closing quote, and what stands behind it. -/
def stringUnits : List Char → Option (List Nat × List Char)
  | [] => none
  | '"' :: cs => some ([], cs)
  | '\\' :: 'u' :: a :: b :: c :: d :: cs => do
    let n ← hexValues? [a, b, c, d]
    let (units, rest) ← stringUnits cs
    some (n :: units, rest)
  | '\\' :: e :: cs => do
    let c ← shortEscape? e
    let (units, rest) ← stringUnits cs
    some (c.toNat :: units, rest)
  | c :: cs =>
    if c = '\\' ∨ c.toNat < 0x20 then none
    else do
      let (units, rest) ← stringUnits cs
      some (c.toNat :: units, rest)

theorem stringUnits_shorter {cs : List Char} {units : List Nat} {rest : List Char}
    (h : stringUnits cs = some (units, rest)) : rest.length < cs.length := by
  fun_induction stringUnits cs generalizing units rest <;>
    simp_all [Option.bind_eq_some_iff] <;> grind

def isLead (n : Nat) : Bool := 0xD800 ≤ n ∧ n < 0xDC00

def isTrail (n : Nat) : Bool := 0xDC00 ≤ n ∧ n < 0xE000

/-- The characters of code units in which a lead surrogate and a trail surrogate make one. -/
def ofUnits? : List Nat → Option (List Char)
  | [] => some []
  | n :: units =>
    if isTrail n then none
    else if isLead n then match units with
      | [] => none
      | m :: units =>
        if isTrail m then
          (ofUnits? units).map
            (Char.ofNat (0x10000 + (n - 0xD800) * 0x400 + (m - 0xDC00)) :: ·)
        else none
    else (ofUnits? units).map (Char.ofNat n :: ·)

def isNumberChar (c : Char) : Bool := c.isDigit ∨ c = '-' ∨ c = '+' ∨ c = '.' ∨ c = 'e' ∨ c = 'E'

def allDigits (cs : List Char) : Bool := cs ≠ [] && cs.all Char.isDigit

/-- Nothing, or an exponent mark, an optional sign and digits. -/
def isExponent : List Char → Bool
  | [] => true
  | [_] => false
  | e :: s :: ds =>
    (e = 'e' ∨ e = 'E') && (if s = '+' ∨ s = '-' then allDigits ds else allDigits (s :: ds))

/-- Nothing, a point and digits, or an exponent, or both. -/
def isFraction : List Char → Bool
  | '.' :: cs => cs.takeWhile Char.isDigit ≠ [] && isExponent (cs.dropWhile Char.isDigit)
  | cs => isExponent cs

/-- A number without its sign; no zero stands in front of its digits. -/
def magnitude? (negative : Bool) (cs : List Char) : Option Lexeme :=
  let digits := cs.takeWhile Char.isDigit
  let rest := cs.dropWhile Char.isDigit
  if digits = [] ∨ digits.head? = some '0' ∧ digits ≠ ['0'] then none
  else if rest = [] then some (.integer negative (Nat.ofDigitChars 10 digits 0))
  else if isFraction rest then some .fraction
  else none

def number? : List Char → Option Lexeme
  | '-' :: cs => magnitude? true cs
  | cs => magnitude? false cs

def word? (cs : List Char) : Option Lexeme :=
  if cs = "null".toList then some .null
  else if cs = "true".toList then some (.bool true)
  else if cs = "false".toList then some (.bool false)
  else none

def mark? : Char → Option Lexeme
  | '[' => some .openArray
  | ']' => some .closeArray
  | '{' => some .openObject
  | '}' => some .closeObject
  | ',' => some .comma
  | ':' => some .colon
  | _ => none

/-- The words of a text; none if some part of it is no word. -/
def lexemes? : List Char → Option (List Lexeme)
  | [] => some []
  | c :: cs =>
    if isSpace c then lexemes? cs
    else if c = '"' then match h : stringUnits cs with
      | none => none
      | some (units, rest) =>
        have := stringUnits_shorter h
        (lexemes? rest).map (.string ((ofUnits? units).map String.ofList) :: ·)
    else match mark? c with
      | some m => (lexemes? cs).map (m :: ·)
      | none =>
        if isNumberChar c then do
          let n ← number? (c :: cs.takeWhile isNumberChar)
          let rest ← lexemes? (cs.dropWhile isNumberChar)
          some (n :: rest)
        else do
          let w ← word? (c :: cs.takeWhile Char.isAlpha)
          let rest ← lexemes? (cs.dropWhile Char.isAlpha)
          some (w :: rest)
termination_by cs => cs.length
decreasing_by
  all_goals simp only [List.length_cons]
  all_goals
    have := (List.dropWhile_suffix isNumberChar (l := cs)).length_le
    have := (List.dropWhile_suffix Char.isAlpha (l := cs)).length_le
    omega

end GridRules.Json
