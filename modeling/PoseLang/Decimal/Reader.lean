import PoseLang.Decimal.Binary

/-!
# Numerals

A numeral is a sign, digits with at most one point among them, and an exponent, where only one digit
has to be there; or a sign and a name of infinity or of the value that is no number, in any case of
letters. The value is the double nearest to what the numeral says.
-/

namespace PoseLang.Decimal

/-- The number that a list of digits spells. -/
def digitsValue (cs : List Char) : Nat :=
  cs.foldl (fun n c => 10 * n + (c.toNat - '0'.toNat)) 0

/-- A sign in front: whether it is a minus, and the rest. -/
def readSign : List Char → Bool × List Char
  | '-' :: cs => (true, cs)
  | '+' :: cs => (false, cs)
  | cs => (false, cs)

/-- The exponent that ends a numeral: nothing at all, or a mark, a sign and at least one digit. -/
def readExponent? : List Char → Option Int
  | [] => some 0
  | c :: cs =>
    let (negative, digits) := readSign cs
    if (c == 'e' || c == 'E') && !digits.isEmpty && digits.all Char.isDigit then
      let n : Int := digitsValue digits
      some (if negative then -n else n)
    else
      none

/-- The digits after a point in front, and the rest; none of either if there is no point. -/
def readFraction : List Char → List Char × List Char
  | '.' :: cs => (cs.takeWhile Char.isDigit, cs.dropWhile Char.isDigit)
  | cs => ([], cs)

/-- A numeral without its sign. -/
def readUnsigned? (negative : Bool) (cs : List Char) : Option Float :=
  let whole := cs.takeWhile Char.isDigit
  let (fraction, rest) := readFraction (cs.dropWhile Char.isDigit)
  if whole.isEmpty && fraction.isEmpty then
    none
  else
    (readExponent? rest).map fun e =>
      nearest negative (digitsValue (whole ++ fraction)) (e - fraction.length)

/-- The double that a text spells. -/
def read? (s : String) : Option Float :=
  let (negative, cs) := readSign s.toList
  let name := String.ofList (cs.map Char.toLower)
  if name = "inf" || name = "infinity" then
    some (ofMagnitudeBits negative infinityBits)
  else if name = "nan" then
    some (ofMagnitudeBits negative (infinityBits + pow2 51))
  else
    readUnsigned? negative cs

end PoseLang.Decimal
