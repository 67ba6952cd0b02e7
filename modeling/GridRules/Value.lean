import GridRules.Decimal.Shortest
import GridRules.Token.Scan

/-! Values that a name can stand for, and the six ways to read one. Each way says what it makes
of a value, what it makes of a literal text, and what it falls back to. -/
namespace GridRules

inductive ValueType where
  | int
  | bool
  | double
  | string
  | uint64
  | array
  | unknown
  deriving DecidableEq, Repr

inductive Value where
  | int (v : Int64)
  | bool (v : Bool)
  | double (v : Float)
  | string (v : String)
  | uint64 (v : UInt64)
  | array (v : List String)
  deriving DecidableEq

namespace Value

def type : Value → ValueType
  | .int _ => .int
  | .bool _ => .bool
  | .double _ => .double
  | .string _ => .string
  | .uint64 _ => .uint64
  | .array _ => .array

def text : Value → String
  | .int v => Decimal.integerText v.toInt
  | .bool v => if v then "true" else "false"
  | .double v => Decimal.text v
  | .string v => v
  | .uint64 v => v.toNat.repr
  | .array v => ",".intercalate v

end Value

/-! Literals. A text is trimmed and loses one pair of quotes before it is read. -/
namespace Literal

def bare (text : String) : String := Text.unquote (Text.trimmed text)

def truthWord? (word : String) : Option Bool :=
  if word = "true" ∨ word = "TRUE" then some true
  else if word = "false" ∨ word = "FALSE" then some false
  else none

def double? (text : String) : Option Float :=
  match truthWord? (bare text) with
  | some b => some (if b then 1 else 0)
  | none => Decimal.double? (bare text)

def bool? (text : String) : Option Bool :=
  match truthWord? (bare text) with
  | some b => some b
  | none => (Decimal.double? (bare text)).map Binary64.isNonzero

/-- A whole number, or else a double cut to one. -/
def int64? (text : String) : Option Int64 :=
  match Decimal.int64? (bare text) with
  | some v => some v
  | none => (double? (bare text)).map Binary64.toInt64

/-- A whole number, or else a double from zero up cut to one. -/
def uint64? (text : String) : Option UInt64 :=
  match Decimal.uint64? (bare text) with
  | some v => some v
  | none => ((double? (bare text)).filter (0 ≤ ·)).map Binary64.toUInt64

def array? (text : String) : Option (List String) :=
  if (Text.trimStart text.toList).head? = some '[' then (Token.arrayElements text).toOption
  else some [Text.unquote text]

end Literal

/-- One way to read a value. -/
structure Reading (α : Type) where
  ofValue : Value → Option α
  literal : String → Option α
  fallback : α

namespace Reading

/-- The text of an array's only element. -/
def single? : List String → Option String
  | [only] => some only
  | _ => none

def bool : Reading Bool where
  ofValue
    | .bool v => some v
    | .int v => some (v != 0)
    | .uint64 v => some (v != 0)
    | .double v => some (Binary64.isNonzero v)
    | .string v => Literal.bool? v
    | .array v => some (!v.isEmpty)
  literal := Literal.bool?
  fallback := false

def double : Reading Float where
  ofValue
    | .double v => some v
    | .int v => some (Binary64.ofInt v.toInt)
    | .uint64 v => some (Binary64.ofInt v.toNat)
    | .bool v => some (if v then 1 else 0)
    | .string v => Literal.double? v
    | .array v => (single? v).bind Literal.double?
  literal := Literal.double?
  fallback := 0

def int : Reading Int64 where
  ofValue
    | .int v => some v
    | .double v => some (Binary64.toInt64 v)
    | .uint64 v => Word.signed? v.toNat
    | .bool v => some (if v then 1 else 0)
    | .string v => Literal.int64? v
    | .array v => (single? v).bind Literal.int64?
  literal := Literal.int64?
  fallback := 0

def uint64 : Reading UInt64 where
  ofValue
    | .uint64 v => some v
    | .int v => Word.unsigned? v.toInt
    | .double v => if 0 ≤ v then some (Binary64.toUInt64 v) else none
    | .bool v => some (if v then 1 else 0)
    | .string v => Literal.uint64? v
    | .array v => (single? v).bind Literal.uint64?
  literal := Literal.uint64?
  fallback := 0

def string : Reading String where
  ofValue v := some v.text
  literal text := some (Text.unquote text)
  fallback := ""

def array : Reading (List String) where
  ofValue
    | .array v => some v
    | .string v => Literal.array? v
    | v => some [v.text]
  literal := Literal.array?
  fallback := []

end Reading

/-- What `f` gives for the reading that a type names; the unknown type names none. -/
def ValueType.read? (f : {α : Type} → Reading α → Option α) : ValueType → Option Value
  | .int => (f .int).map .int
  | .bool => (f .bool).map .bool
  | .double => (f .double).map .double
  | .string => (f .string).map .string
  | .uint64 => (f .uint64).map .uint64
  | .array => (f .array).map .array
  | .unknown => none

/-- The value converted to a declared type; the unknown type takes any value as it is. -/
def Value.coerce (v : Value) : ValueType → Option Value
  | .unknown => some v
  | type => type.read? (·.ofValue v)

end GridRules
