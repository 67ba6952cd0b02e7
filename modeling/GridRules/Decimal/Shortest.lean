import GridRules.Decimal.Numeral

/-! The text of a double: the fewest digits that read back as the same double, and of those the
nearest to it, written without an exponent. -/
namespace GridRules.Decimal

/-- The decimal places of the exact value. Its fraction in lowest terms is over a power of two,
and each factor two takes one place. -/
def exactPlaces (bits : Nat) : Nat :=
  (Binary64.one / Nat.gcd (Binary64.units bits) Binary64.one).log2

/-- Whether `c * 10 ^ p` units of the last place of `places` is nearest to these bits. -/
def readsBack (bits places c p : Nat) : Bool :=
  Binary64.nearest (c * tenTo p) (tenTo places) == bits

/-- The multiple of `10 ^ p` next to the exact value that reads back; the nearer one is tried
first, and the upper one when both are as near. -/
def neighbour? (bits places value p : Nat) : Option Nat :=
  let low := value / tenTo p
  let tried := if 2 * (value % tenTo p) < tenTo p then [low, low + 1] else [low + 1, low]
  tried.find? fun c => readsBack bits places c p

/-- Tries the coarse grids first; the exact value itself closes the search. -/
def search (bits places value : Nat) : Nat → Decimal
  | 0 => ⟨value, -places⟩
  | p + 1 => match neighbour? bits places value (p + 1) with
    | some c => ⟨c, (p + 1 : Nat) - (places : Int)⟩
    | none => search bits places value p

/-- The shortest decimal that reads back as these magnitude bits. -/
def shortest (bits : Nat) : Decimal :=
  let places := exactPlaces bits
  let value := Binary64.units bits * tenTo places / Binary64.one
  search bits places value (digitCount value)

/-- Digits with a point `places` before their end, and no point when there are no places. -/
def withPoint (digits : List Char) (places : Nat) : List Char :=
  let padded := List.replicate (places + 1 - digits.length) '0' ++ digits
  let cut := padded.length - places
  if places = 0 then padded else padded.take cut ++ '.' :: padded.drop cut

/-- The decimal without an exponent. -/
def positional (d : Decimal) : List Char :=
  if d.coefficient = 0 then ['0']
  else withPoint (Nat.toDigits 10 d.coefficient ++ List.replicate d.exponent.toNat '0')
    (-d.exponent).toNat

/-- Sign and special values are written the same way by every form of a double. -/
def signedText (x : Float) (finite : Nat → List Char) : String :=
  if x.isNaN then "NaN"
  else
    let body := if Binary64.isFinite x then finite (Binary64.magnitudeBits x) else "inf".toList
    String.ofList (if Binary64.isNegative x then '-' :: body else body)

def text (x : Float) : String :=
  signedText x fun bits => if bits = 0 then ['0'] else (shortest bits).positional

/-- The double rounded to a whole number, a half to the even one. -/
def wholeText (x : Float) : String :=
  signedText x fun bits => Nat.toDigits 10 (Binary64.roundDiv (Binary64.units bits) Binary64.one)

end GridRules.Decimal
