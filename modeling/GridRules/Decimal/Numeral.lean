import GridRules.Binary64.Bits
import GridRules.Word

/-! Numbers written in decimal: whole numbers, and real numbers with a point and an exponent.
A real number is read as an exact decimal first and rounded once. -/
namespace GridRules

/-- The number `coefficient * 10 ^ exponent`. -/
structure Decimal where
  coefficient : Nat
  exponent : Int
  deriving DecidableEq

namespace Decimal

def ofDigits (cs : List Char) : Nat := Nat.ofDigitChars 10 cs 0

def natural? (cs : List Char) : Option Nat :=
  if cs ≠ [] ∧ cs.all Char.isDigit then some (ofDigits cs) else none

def integerText (i : Int) : String := if i < 0 then "-" ++ i.natAbs.repr else i.natAbs.repr

/-- Digits after an optional plus sign. -/
def unsigned? : List Char → Option Nat
  | '+' :: cs => natural? cs
  | cs => natural? cs

/-- Digits after an optional sign. -/
def signed? : List Char → Option Int
  | '-' :: cs => (natural? cs).map fun n => -(n : Int)
  | cs => (unsigned? cs).map Int.ofNat

def uint64? (s : String) : Option UInt64 := do
  let n ← unsigned? s.toList
  Word.unsigned? n

def int64? (s : String) : Option Int64 := do
  let i ← signed? s.toList
  Word.signed? i

/-- The power of ten written at the end of a number; none is written as nothing. -/
def exponent? : List Char → Option Int
  | [] => some 0
  | c :: cs => if c = 'e' ∨ c = 'E' then signed? cs else none

/-- Digits with at most one point, at least one digit, and an optional exponent. -/
def decimal? (cs : List Char) : Option Decimal :=
  let whole := cs.takeWhile Char.isDigit
  let rest := cs.dropWhile Char.isDigit
  let (fraction, rest) := match rest with
    | '.' :: rest => (rest.takeWhile Char.isDigit, rest.dropWhile Char.isDigit)
    | rest => ([], rest)
  if whole = [] ∧ fraction = [] then none
  else (exponent? rest).map fun e => ⟨ofDigits (whole ++ fraction), e - fraction.length⟩

def tenTo (p : Nat) : Nat := Nat.pow 10 p

def digitCount (n : Nat) : Nat := n.repr.length

/-- The nearest double's magnitude. A decimal beyond `10 ^ 310` is infinite and one below
`10 ^ (-330)` is zero; no exponent in between is too large to compute with. -/
def magnitude (d : Decimal) : Nat :=
  let top := d.exponent + digitCount d.coefficient
  if d.coefficient = 0 ∨ top < -330 then 0
  else if 310 < top then Binary64.infinityBits
  else Binary64.nearest (d.coefficient * tenTo d.exponent.toNat) (tenTo (-d.exponent).toNat)

def isWord (word : String) (cs : List Char) : Bool := cs.map Char.toLower == word.toList

/-- The magnitude that a number without its sign stands for. -/
def unsignedDouble? (negative : Bool) (cs : List Char) : Option Float :=
  if isWord "nan" cs then some (Float.ofBits 0x7ff8000000000000)
  else if isWord "inf" cs || isWord "infinity" cs then
    some (Binary64.ofMagnitude negative Binary64.infinityBits)
  else (decimal? cs).map fun d => Binary64.ofMagnitude negative d.magnitude

/-- A double: an optional sign, then a decimal, an infinity or not-a-number, in any case. -/
def double? (s : String) : Option Float :=
  match s.toList with
  | '-' :: cs => unsignedDouble? true cs
  | '+' :: cs => unsignedDouble? false cs
  | cs => unsignedDouble? false cs

theorem natural?_toDigits (n : Nat) : natural? (Nat.toDigits 10 n) = some n := by
  have h : ∀ c ∈ Nat.toDigits 10 n, c.isDigit := fun c hc =>
    Nat.isDigit_of_mem_toDigits (by decide) (by decide) hc
  simpa [natural?, ofDigits, Nat.ofDigitChars_ten_toDigits] using h

end Decimal
end GridRules
