/-! A double as its sign and its magnitude in units of `2 ^ (-1074)`, the smallest positive
double. The magnitude bits of a double grow with its magnitude, so rounding to the nearest
double is one rounded quotient. -/
namespace GridRules.Binary64

/-- The highest bit of a word. -/
def signBit : Nat := 0x8000000000000000

/-- The bit that normal doubles have in front of their fraction. -/
def leadingBit : Nat := 0x10000000000000

def isNegative (x : Float) : Bool := signBit ≤ x.toBits.toNat

def magnitudeBits (x : Float) : Nat := x.toBits.toNat % signBit

/-- Neither of the two zeros; not-a-number is nonzero. -/
def isNonzero (x : Float) : Bool := magnitudeBits x ≠ 0

def infinityBits : Nat := 2047 * leadingBit

def isFinite (x : Float) : Bool := magnitudeBits x < infinityBits

def ofMagnitude (negative : Bool) (bits : Nat) : Float :=
  Float.ofBits (UInt64.ofNat (if negative then signBit + bits else bits))

/-- How many units of `2 ^ (-1074)` the magnitude bits stand for. Infinity counts as the next
power of two. -/
def units (bits : Nat) : Nat :=
  if bits < leadingBit then bits
  else (leadingBit + bits % leadingBit) <<< (bits / leadingBit - 1)

def one : Nat := 1 <<< 1074

/-- The quotient rounded to a whole number, a half to the even one. -/
def roundDiv (a b : Nat) : Nat :=
  let q := a / b
  let r := a % b
  if 2 * r < b ∨ 2 * r = b ∧ q % 2 = 0 then q else q + 1

/-- The magnitude bits nearest to the fraction `n / d`, a half to the even ones. -/
def nearest (n d : Nat) : Nat :=
  let scaled := n * one
  let shift := (scaled / d).log2 - 52
  min infinityBits (shift * leadingBit + roundDiv scaled (d <<< shift))

def ofInt (i : Int) : Float := ofMagnitude (i < 0) (nearest i.natAbs 1)

theorem roundDiv_mul (a b : Nat) (hb : 0 < b) : roundDiv (a * b) b = a := by
  simp [roundDiv, hb]

/-- The whole part of the magnitude; it is larger than any word for an infinity. -/
def whole (x : Float) : Nat := units (magnitudeBits x) / one

def isWhole (x : Float) : Bool := isFinite x && units (magnitudeBits x) % one == 0

/-- The whole part as a signed word, clamped to its range; not-a-number gives zero. -/
def toInt64 (x : Float) : Int64 :=
  if x.isNaN then 0
  else if isNegative x then Int64.ofInt (-(min (whole x) signBit : Nat))
  else Int64.ofNat (min (whole x) (signBit - 1))

/-- The whole part as an unsigned word, clamped to its range; not-a-number gives zero. -/
def toUInt64 (x : Float) : UInt64 :=
  if x.isNaN || isNegative x then 0 else UInt64.ofNat (min (whole x) (UInt64.size - 1))

end GridRules.Binary64
